/-
The plan of a cleanup on a repository that is ready for it: the plan is there, lists the
finished transactions and what is in the trash, and passes its own check.
-/
import CheckPo.CleanupState
import CheckPo.DiscardShape

namespace CheckPo

open FileTree

/-! Traversals. -/

theorem mapM_congr_mem {ε α β : Type} {f g : α → Except ε β} {values : List α}
    (h : ∀ value ∈ values, f value = g value) : values.mapM f = values.mapM g := by
  induction values with
  | nil => rfl
  | cons value values ih =>
      rw [List.mapM_cons, List.mapM_cons, h value List.mem_cons_self,
        ih fun other hother => h other (List.mem_cons_of_mem _ hother)]

/-- What is left out of a traversal yields nothing. -/
theorem mapM_filter_reduceOption {ε α β : Type} {f : α → Except ε (Option β)}
    {keep : α → Bool} {values : List α}
    (h : ∀ value ∈ values, keep value = false → f value = .ok none) :
    ((values.filter keep).mapM f >>= fun found => .ok found.reduceOption) =
      (values.mapM f >>= fun found => .ok found.reduceOption) := by
  induction values with
  | nil => rfl
  | cons value values ih =>
      have hrest := ih fun other hother => h other (List.mem_cons_of_mem _ hother)
      cases hkeep : keep value
      · rw [List.filter_cons_of_neg (by simp [hkeep]), hrest, List.mapM_cons,
          h value List.mem_cons_self hkeep, except_bind_ok]
        cases values.mapM f with
        | error error => rfl
        | ok found => rfl
      · rw [List.filter_cons_of_pos hkeep, List.mapM_cons, List.mapM_cons]
        cases hvalue : f value with
        | error error => rfl
        | ok result =>
            cases hfirst : (values.filter keep).mapM f with
            | error error =>
                rw [hfirst] at hrest
                cases hsecond : values.mapM f with
                | error error' =>
                    rw [hsecond] at hrest
                    simpa using hrest
                | ok found =>
                    rw [hsecond] at hrest
                    cases hrest
            | ok found =>
                rw [hfirst] at hrest
                cases hsecond : values.mapM f with
                | error error' =>
                    rw [hsecond] at hrest
                    cases hrest
                | ok found' =>
                    rw [hsecond] at hrest
                    have heq : found.reduceOption = found'.reduceOption := Except.ok.inj hrest
                    cases result with
                    | none => simpa using heq
                    | some result => simpa using heq

/-! The pending transactions. -/

section Pending

variable {reader : JournalReader} {root : String} {start files : RepositoryFiles}

theorem jsonResult_eq_ok {α : Type} {path : String} {result : Except String α} {value : α} :
    jsonResult path result = .ok value ↔ result = .ok value := by
  cases result with
  | error error => exact ⟨nofun, nofun⟩
  | ok result => simp [jsonResult]

/-- The path of a journal is in the errors only. -/
theorem readTransactionJournal_eq_ok {path : String} {bytes : Bytes}
    {journal : TransactionJournal} :
    readTransactionJournal reader path bytes = .ok journal ↔
      bytes.length ≤ maxTransactionJournalBytes ∧
        reader.schemaVersion bytes = .ok transactionJournalSchemaVersion ∧
        reader.journal bytes = .ok journal := by
  simp only [readTransactionJournal, readBytesBounded, except_bind_eq_ok, except_guard_eq_ok,
    jsonResult_eq_ok, not_lt]
  constructor
  · rintro ⟨_, ⟨hlength, ⟨⟩⟩, version, hversion, hschema, hjournal⟩
    rw [not_not.mp hschema] at hversion
    exact ⟨hlength, hversion, hjournal⟩
  · rintro ⟨hlength, hversion, hjournal⟩
    exact ⟨bytes, ⟨hlength, rfl⟩, _, hversion, not_not.mpr rfl, hjournal⟩

/-- A finished transaction is not pending. -/
theorem pendingTransaction_finished {id : String} (h : Finished reader root files id)
    (transactions : String) :
    pendingTransaction reader transactions id (transactionEntryAt files id) = .ok none := by
  rcases h with ⟨journal, ⟨hdirectory, bytes, hbytes, hjournal⟩, hterminal⟩
  rw [identifiedJournal, except_bind_eq_ok] at hjournal
  rcases hjournal with ⟨read, hread, hjournal⟩
  rw [except_bind_eq_ok] at hjournal
  rcases hjournal with ⟨⟨⟩, -, hjournal⟩
  rw [except_pure_eq_ok] at hjournal
  rw [hjournal] at hread
  simp only [transactionEntryAt, hdirectory, hbytes, pendingTransaction,
    readTransactionJournal_eq_ok.mpr (readTransactionJournal_eq_ok.mp hread), if_pos hterminal]

/-- Wherever a cleanup is cut short, the same transactions are pending. -/
theorem pendingTransactionsOf_eq (order : LinearOrder String)
    (hready : CleanupReady reader root start) (h : CleanupState reader root start files) :
    pendingTransactionsOf reader root order files =
      pendingTransactionsOf reader root order start := by
  have hjournals : ∀ files : RepositoryFiles, validateRepositoryLayout root files = .ok () →
      pendingTransactionsOf reader root order files =
        ((files.names order journalsDir).mapM (fun name =>
          pendingTransaction reader (displayPath root journalsDir) name
            (transactionEntryAt files name)) >>= fun found => .ok found.reduceOption) := by
    intro files hlayout
    have hdirectory : files.entry journalsDir ≠ none := by
      rw [entry_of_layout hlayout (by decide)]
      exact nofun
    rw [pendingTransactionsOf, hlayout, transactionEntries, if_neg hdirectory]
    simp only [pendingTransactionsForProject, except_bind_ok, List.mapM_map]
    rfl
  rw [hjournals start hready.layout, hjournals files (h.layout_eq_ok hready.layout)]
  have hnames : files.names order journalsDir = (start.names order journalsDir).filter fun name =>
      (files.entry (journalsDir ++ [name])).isSome := by
    apply names_filter
    intro name
    rw [Option.isSome_iff_ne_none]
    constructor
    · intro hname
      rw [← h.entry_journal [] hname]
      exact ⟨hname, hname⟩
    · exact fun hname => hname.2
  rw [hnames]
  have hpresent : ∀ name, files.entry (journalsDir ++ [name]) ≠ none →
      transactionEntryAt files name = transactionEntryAt start name := by
    intro name hname
    rw [transactionEntryAt, transactionEntryAt, h.entry_journal [] hname,
      h.entry_journal ["journal.json"] hname]
  have hsame : ((start.names order journalsDir).filter fun name =>
      (files.entry (journalsDir ++ [name])).isSome).mapM (fun name =>
        pendingTransaction reader (displayPath root journalsDir) name
          (transactionEntryAt files name)) =
      ((start.names order journalsDir).filter fun name =>
        (files.entry (journalsDir ++ [name])).isSome).mapM fun name =>
          pendingTransaction reader (displayPath root journalsDir) name
            (transactionEntryAt start name) := by
    apply mapM_congr_mem
    intro name hname
    rw [hpresent name (Option.isSome_iff_ne_none.mp (List.mem_filter.mp hname).2)]
  rw [hsame]
  apply mapM_filter_reduceOption
  intro name hname hgone
  apply pendingTransaction_finished
  by_contra hfinished
  have hentry := h.frame (journalsDir ++ [name]) (untouched_journal hfinished)
  rw [Option.isSome_eq_false_iff, Option.isNone_iff_eq_none] at hgone
  exact (mem_names order).mp hname (hentry.symm.trans hgone)

end Pending

/-! The candidates. -/

theorem FileTree.weightBelow_le {α : Type} {size : TreeEntry α → Nat} {tree : FileTree α}
    (top : Path) : tree.weightBelow size top ≤ tree.weight size :=
  Finset.sum_le_sum_of_subset (Finset.filter_subset _ _)

theorem FileTree.Free.weightBelow {α : Type} {size : TreeEntry α → Nat} {tree : FileTree α}
    {top : Path} (h : tree.Free top) : tree.weightBelow size top = 0 := by
  apply Finset.sum_eq_zero
  intro path hpath
  rcases mem_below.mp hpath with ⟨hentry, hstarts, -⟩
  exact absurd (h path hstarts) hentry

section Candidates

variable {reader : JournalReader} {blake3 : Bytes → Digest32} {root : String}
variable {fingerprint : RepositoryFiles → Path → String} {files : RepositoryFiles}

theorem foldlM_treeMetadataStep {top : Path} (paths : List Path) (metadata : TreeMetadata)
    (hplain : ∀ path ∈ paths, files.entry path ≠ none ∧ files.entry path ≠ some .link ∧
      files.entry path ≠ some .special)
    (hcount : metadata.fileCount + (paths.map (files.sizeAt fileCountSize)).sum < 2 ^ 64)
    (hbytes : metadata.sizeBytes + (paths.map (files.sizeAt fileBytesSize)).sum < 2 ^ 64) :
    ∃ hashed, paths.foldlM (treeMetadataStep root fingerprint files top) metadata =
      .ok ⟨metadata.fileCount + (paths.map (files.sizeAt fileCountSize)).sum,
        metadata.sizeBytes + (paths.map (files.sizeAt fileBytesSize)).sum, hashed⟩ := by
  induction paths generalizing metadata with
  | nil => exact ⟨metadata.hashed, rfl⟩
  | cons path paths ih =>
      rcases hplain path List.mem_cons_self with ⟨hentry, hlink, hspecial⟩
      rw [List.map_cons, List.sum_cons, ← Nat.add_assoc] at hcount hbytes
      have hstep : ∃ hashed, treeMetadataStep root fingerprint files top metadata path =
          .ok ⟨metadata.fileCount + files.sizeAt fileCountSize path,
            metadata.sizeBytes + files.sizeAt fileBytesSize path, hashed⟩ := by
        rcases hfound : files.entry path with _ | ⟨content | _ | _ | _⟩
        · exact absurd hfound hentry
        · have hcountAt : files.sizeAt fileCountSize path = 1 := by rw [sizeAt, hfound]; rfl
          have hbytesAt : files.sizeAt fileBytesSize path = content.length := by
            rw [sizeAt, hfound]
            rfl
          rw [hcountAt] at hcount ⊢
          rw [hbytesAt] at hbytes ⊢
          rw [treeMetadataStep, hfound]
          dsimp only
          rw [if_neg (by omega), if_neg (by omega)]
          exact ⟨_, rfl⟩
        · have hcountAt : files.sizeAt fileCountSize path = 0 := by rw [sizeAt, hfound]; rfl
          have hbytesAt : files.sizeAt fileBytesSize path = 0 := by rw [sizeAt, hfound]; rfl
          rw [treeMetadataStep, hfound, hcountAt, hbytesAt]
          exact ⟨_, rfl⟩
        · exact absurd hfound hlink
        · exact absurd hfound hspecial
      rcases hstep with ⟨hashed, hstep⟩
      rcases ih ⟨_, _, hashed⟩ (fun other hother => hplain other (List.mem_cons_of_mem _ hother))
        hcount hbytes with ⟨final, hfinal⟩
      refine ⟨final, ?_⟩
      rw [List.foldlM_cons, hstep, except_bind_ok, hfinal, List.map_cons, List.sum_cons,
        List.map_cons, List.sum_cons, Nat.add_assoc, Nat.add_assoc]

theorem transactionTreeMetadata_eq_ok (hcount : files.weight fileCountSize < 2 ^ 64)
    (hbytes : files.weight fileBytesSize < 2 ^ 64) {top : Path} (hpayload : Payload files top) :
    ∃ digest, transactionTreeMetadata blake3 root fingerprint files top =
      .ok (files.weightBelow fileCountSize top, files.weightBelow fileBytesSize top, digest) := by
  have hplain : ∀ path ∈ files.walk top, files.entry path ≠ none ∧
      files.entry path ≠ some .link ∧ files.entry path ≠ some .special := by
    intro path hpath
    rcases mem_below.mp (mem_walk.mp hpath) with ⟨hentry, hbelow⟩
    exact ⟨hentry, hpayload.2 path hbelow⟩
  have hcountBelow := sum_walk fileCountSize files top
  have hbytesBelow := sum_walk fileBytesSize files top
  rcases @foldlM_treeMetadataStep root fingerprint files top (files.walk top)
    ⟨0, 0, utf8 "checkpo-transaction-cleanup-tree-v2\x00"⟩ hplain
    (by rw [hcountBelow, Nat.zero_add]; exact (weightBelow_le top).trans_lt hcount)
    (by rw [hbytesBelow, Nat.zero_add]; exact (weightBelow_le top).trans_lt hbytes)
    with ⟨hashed, hfold⟩
  rw [hcountBelow, hbytesBelow, Nat.zero_add, Nat.zero_add] at hfold
  refine ⟨(blake3 hashed).toHex, ?_⟩
  rw [transactionTreeMetadata, RepositoryFiles.ensureRegularDirectoryNoFollow, hpayload.1]
  simp only [except_bind_ok, hfold]
  rfl

/-- The directories of a candidate. -/
def CleanupLocation.tops (location : CleanupLocation) (name : String) : List Path :=
  match location with
  | .active => [journalsDir ++ [name], recoveryRescuesDir ++ [name]]
  | .trash => [transactionCleanupTrashDir ++ [name]]

/-- A candidate counts what is in its directories, and passes the check of the plan. -/
structure CandidateFor (reader : JournalReader) (blake3 : Bytes → Digest32) (root : String)
    (fingerprint : RepositoryFiles → Path → String) (files : RepositoryFiles)
    (location : CleanupLocation) (name : String) (candidate : TransactionCleanupCandidate) :
    Prop where
  location_eq : candidate.location = location
  transactionId_eq : candidate.transactionId = name
  fileCount_eq : candidate.fileCount =
    ((location.tops name).map (files.weightBelow fileCountSize)).sum
  sizeBytes_eq : candidate.sizeBytes =
    ((location.tops name).map (files.weightBelow fileBytesSize)).sum
  valid : revalidateCandidate reader blake3 root fingerprint files candidate = .ok ()

variable (hready : CleanupReady reader root files)
include hready

theorem trashCandidate_eq_ok {name : String}
    (hname : files.entry (transactionCleanupTrashDir ++ [name]) ≠ none) :
    ∃ candidate, trashCandidate blake3 root fingerprint files name = .ok candidate ∧
      CandidateFor reader blake3 root fingerprint files .trash name candidate := by
  rcases Option.ne_none_iff_exists'.mp hname with ⟨found, hfound⟩
  have hdirectory := hready.trash.children name found hfound
  rw [hdirectory] at hfound
  have hpayload : Payload files (transactionCleanupTrashDir ++ [name]) :=
    ⟨hfound, fun path hpath => hready.trash.plain path (below_of_child hpath.1)⟩
  rcases @transactionTreeMetadata_eq_ok blake3 root fingerprint files hready.fileCount
    hready.fileBytes _ hpayload with ⟨digest, hmetadata⟩
  have hcandidate : cleanupTrashCandidate blake3 root fingerprint files name = .ok
      ⟨.trash, name, "cleanupTrash", "",
        files.weightBelow fileCountSize (transactionCleanupTrashDir ++ [name]),
        files.weightBelow fileBytesSize (transactionCleanupTrashDir ++ [name]), digest⟩ := by
    rw [cleanupTrashCandidate, hmetadata]
    rfl
  have htrash : trashCandidate blake3 root fingerprint files name =
      cleanupTrashCandidate blake3 root fingerprint files name := by
    rw [trashCandidate, hfound]
  refine ⟨_, htrash.trans hcandidate, ⟨rfl, rfl, rfl, rfl, ?_⟩⟩
  rw [revalidateCandidate, CleanupLocation.directory, hfound]
  simp only [currentCandidate, hcandidate, except_bind_ok, ne_eq, not_true_eq_false, if_false]

theorem activeCandidate_finished {id : String} (hfinished : Finished reader root files id) :
    ∃ candidate, activeCandidate reader blake3 root fingerprint files id = .ok (some candidate) ∧
      CandidateFor reader blake3 root fingerprint files .active id candidate := by
  have hplain := hready.payload id hfinished
  have hrescues := hready.rescue id hfinished
  rcases hfinished with ⟨journal, ⟨hdirectory, bytes, hbytes, hjournal⟩, hterminal⟩
  rcases @transactionTreeMetadata_eq_ok blake3 root fingerprint files hready.fileCount
    hready.fileBytes _ ⟨hdirectory, hplain⟩ with ⟨digest, hmetadata⟩
  have hrescue : ∃ rescueDigest, optionalTransactionTreeMetadata blake3 root fingerprint files
      (recoveryRescuesDir ++ [id]) = .ok
        (files.weightBelow fileCountSize (recoveryRescuesDir ++ [id]),
          files.weightBelow fileBytesSize (recoveryRescuesDir ++ [id]), rescueDigest) := by
    rcases hrescues with hnone | hpayload
    · have hfree := hready.closed.free hnone
      rw [optionalTransactionTreeMetadata, hnone, hfree.weightBelow, hfree.weightBelow]
      exact ⟨_, rfl⟩
    · rcases @transactionTreeMetadata_eq_ok blake3 root fingerprint files hready.fileCount
        hready.fileBytes _ hpayload with ⟨rescueDigest, hrescue⟩
      rw [optionalTransactionTreeMetadata, hpayload.1]
      exact ⟨rescueDigest, hrescue⟩
  rcases hrescue with ⟨rescueDigest, hrescue⟩
  have hbound : ∀ size : TreeEntry Bytes → Nat, [files.weightBelow size (journalsDir ++ [id]),
      files.weightBelow size (recoveryRescuesDir ++ [id])].sum ≤ files.weight size := by
    intro size
    have hapart : [journalsDir ++ [id], recoveryRescuesDir ++ [id]].Pairwise fun left right =>
        ¬ left <+: right ∧ ¬ right <+: left := by simp [journalsDir, recoveryRescuesDir]
    exact sum_weightBelow_le hapart
  have hcount := (@checkedSum_eq_ok (.corruption "transaction file count overflow") _ _).mpr
    ⟨(hbound fileCountSize).trans_lt hready.fileCount, rfl⟩
  have hsize := (@checkedSum_eq_ok (.corruption "transaction payload size overflow") _ _).mpr
    ⟨(hbound fileBytesSize).trans_lt hready.fileBytes, rfl⟩
  obtain rfl := identifiedJournal_eq_ok hjournal
  have hcandidate : transactionCleanupCandidate blake3 root fingerprint files
      (journalsDir ++ [journal.transactionId]) bytes journal = .ok
        { location := .active
          transactionId := journal.transactionId
          state := journal.state.cleanupText
          journalDigest := (blake3 bytes).toHex
          fileCount := [files.weightBelow fileCountSize (journalsDir ++ [journal.transactionId]),
            files.weightBelow fileCountSize (recoveryRescuesDir ++ [journal.transactionId])].sum
          sizeBytes := [files.weightBelow fileBytesSize (journalsDir ++ [journal.transactionId]),
            files.weightBelow fileBytesSize (recoveryRescuesDir ++ [journal.transactionId])].sum
          treeMetadataDigest := (blake3 (utf8 "checkpo-transaction-cleanup-bundle-v1\x00" ++
            utf8 digest ++ utf8 rescueDigest)).toHex } := by
    simp only [transactionCleanupCandidate, hmetadata, hrescue, hcount, hsize, except_bind_ok]
    rfl
  have hactive : activeCandidate reader blake3 root fingerprint files journal.transactionId =
      (do
        let candidate ← transactionCleanupCandidate blake3 root fingerprint files
          (journalsDir ++ [journal.transactionId]) bytes journal
        return some candidate) := by
    simp only [activeCandidate, hdirectory, hbytes, hjournal, except_bind_ok, if_pos hterminal]
  rw [hcandidate] at hactive
  refine ⟨_, hactive, ⟨rfl, rfl, rfl, rfl, ?_⟩⟩
  have hopen : openFile root (journalsDir ++ [journal.transactionId, "journal.json"]) files =
      .ok () := by
    rw [openFile, hbytes]
  have hread : files.file (journalsDir ++ [journal.transactionId, "journal.json"]) = some bytes :=
    file_eq_some.mpr hbytes
  rw [revalidateCandidate, CleanupLocation.directory, hdirectory]
  simp only [currentCandidate, hopen, hread, Option.getD_some, hjournal, hcandidate,
    except_bind_ok, ne_eq, not_true_eq_false, if_false]

/-- Nothing else in the transactions directory is a candidate. -/
theorem activeCandidate_unfinished {id : String}
    (hunfinished : ¬ Finished reader root files id) :
    activeCandidate reader blake3 root fingerprint files id = .ok none := by
  by_cases hdirectory : files.entry (journalsDir ++ [id]) = some .directory
  · rcases hready.journals id hdirectory with ⟨-, journal, -, bytes, hbytes, hjournal⟩
    have hterminal : ¬ journal.state.isTerminal = true := fun hterminal =>
      hunfinished ⟨journal, ⟨hdirectory, bytes, hbytes, hjournal⟩, hterminal⟩
    simp only [activeCandidate, hdirectory, hbytes, hjournal, except_bind_ok, if_neg hterminal]
    rfl
  · rw [activeCandidate]
    split
    · next h _ => exact absurd h hdirectory
    · rfl

/-! The plan. -/

/-- What a plan for a repository lists. -/
structure PlanFor (reader : JournalReader) (blake3 : Bytes → Digest32) (root : String)
    (fingerprint : RepositoryFiles → Path → String) (files : RepositoryFiles)
    (plan : TransactionCleanupPlan) : Prop where
  schemaVersion : plan.schemaVersion = transactionCleanupPlanSchemaVersion
  active : ∀ id, id ∈ candidateIds .active plan.candidates ↔ Finished reader root files id
  activeNodup : (candidateIds .active plan.candidates).Nodup
  trash : ∀ name, name ∈ candidateIds .trash plan.candidates ↔
    files.entry (transactionCleanupTrashDir ++ [name]) ≠ none
  trashNodup : (candidateIds .trash plan.candidates).Nodup
  valid : ∀ candidate ∈ plan.candidates,
    revalidateCandidate reader blake3 root fingerprint files candidate = .ok ()

omit hready in
/-- The directories of different candidates lie apart. -/
theorem tops_pairwise {candidates : List TransactionCleanupCandidate}
    (h : candidates.Pairwise fun left right =>
      (left.location, left.transactionId) ≠ (right.location, right.transactionId)) :
    (candidates.flatMap fun candidate =>
      candidate.location.tops candidate.transactionId).Pairwise
        fun left right => ¬ left <+: right ∧ ¬ right <+: left := by
  rw [List.pairwise_flatMap]
  constructor
  · intro candidate _
    cases candidate.location
    · simp [CleanupLocation.tops, journalsDir, recoveryRescuesDir]
    · exact List.pairwise_singleton _ _
  · refine h.imp fun {left right} hne => ?_
    cases hleft : left.location <;> cases hright : right.location <;>
      simp [CleanupLocation.tops, journalsDir, recoveryRescuesDir, transactionCleanupTrashDir,
        hleft, hright] at hne ⊢
    · exact ⟨hne, fun h => hne h.symm⟩
    · exact ⟨hne, fun h => hne h.symm⟩

omit hready in
theorem sum_candidates_le {size : TreeEntry Bytes → Nat}
    {value : TransactionCleanupCandidate → Nat} {candidates : List TransactionCleanupCandidate}
    (hapart : candidates.Pairwise fun left right =>
      (left.location, left.transactionId) ≠ (right.location, right.transactionId))
    (hvalue : ∀ candidate ∈ candidates, value candidate =
      ((candidate.location.tops candidate.transactionId).map (files.weightBelow size)).sum) :
    (candidates.map value).sum ≤ files.weight size := by
  have hsum : (candidates.map value).sum = ((candidates.flatMap fun candidate =>
      candidate.location.tops candidate.transactionId).map (files.weightBelow size)).sum := by
    rw [List.map_congr_left hvalue]
    clear hapart hvalue
    induction candidates with
    | nil => rfl
    | cons candidate candidates ih =>
        rw [List.map_cons, List.sum_cons, ih, List.flatMap_cons, List.map_append, List.sum_append]
  rw [hsum]
  exact sum_weightBelow_le (tops_pairwise hapart)

/-- What the plan is made of. -/
structure Listing (reader : JournalReader) (blake3 : Bytes → Digest32) (root : String)
    (fingerprint : RepositoryFiles → Path → String) (files : RepositoryFiles)
    (candidates : List TransactionCleanupCandidate) : Prop where
  apart : candidates.Pairwise fun left right =>
    (left.location, left.transactionId) ≠ (right.location, right.transactionId)
  counted : ∀ candidate ∈ candidates, CandidateFor reader blake3 root fingerprint files
    candidate.location candidate.transactionId candidate
  active : ∀ id, (∃ candidate ∈ candidates, candidate.location = .active ∧
    candidate.transactionId = id) ↔ Finished reader root files id
  trash : ∀ name, (∃ candidate ∈ candidates, candidate.location = .trash ∧
    candidate.transactionId = name) ↔
      files.entry (transactionCleanupTrashDir ++ [name]) ≠ none

omit hready in
theorem Listing.perm {candidates reordered : List TransactionCleanupCandidate}
    (h : Listing reader blake3 root fingerprint files candidates)
    (hperm : reordered.Perm candidates) :
    Listing reader blake3 root fingerprint files reordered where
  apart := hperm.symm.pairwise h.apart fun {_ _} hne heq => hne heq.symm
  counted candidate hmem := h.counted candidate (hperm.mem_iff.mp hmem)
  active id := by simp only [hperm.mem_iff, h.active]
  trash name := by simp only [hperm.mem_iff, h.trash]

omit hready in
theorem Listing.planFor {plan : TransactionCleanupPlan}
    (h : Listing reader blake3 root fingerprint files plan.candidates)
    (hschema : plan.schemaVersion = transactionCleanupPlanSchemaVersion) :
    PlanFor reader blake3 root fingerprint files plan := by
  have hmem : ∀ location id, id ∈ candidateIds location plan.candidates ↔
      ∃ candidate ∈ plan.candidates, candidate.location = location ∧
        candidate.transactionId = id := by
    intro location id
    simp only [candidateIds, List.mem_map, List.mem_filter, decide_eq_true_eq, and_assoc]
  have hnodup : ∀ location, (candidateIds location plan.candidates).Nodup := by
    intro location
    rw [candidateIds, List.Nodup, List.pairwise_map]
    refine (h.apart.filter _).imp_of_mem fun {left right} hleft hright hne heq => hne ?_
    rw [of_decide_eq_true (List.mem_filter.mp hleft).2,
      of_decide_eq_true (List.mem_filter.mp hright).2, heq]
  exact ⟨hschema, fun id => (hmem .active id).trans (h.active id), hnodup .active,
    fun name => (hmem .trash name).trans (h.trash name), hnodup .trash,
    fun candidate hcandidate => (h.counted candidate hcandidate).valid⟩

/-- The candidates at one location, one for each name that is there. -/
structure Listed (reader : JournalReader) (blake3 : Bytes → Digest32) (root : String)
    (fingerprint : RepositoryFiles → Path → String) (files : RepositoryFiles)
    (location : CleanupLocation) (there : String → Prop)
    (candidates : List TransactionCleanupCandidate) : Prop where
  apart : candidates.Pairwise fun left right => left.transactionId ≠ right.transactionId
  counted : ∀ candidate ∈ candidates, CandidateFor reader blake3 root fingerprint files location
    candidate.transactionId candidate
  named : ∀ name, (∃ candidate ∈ candidates, candidate.transactionId = name) ↔ there name

omit hready in
theorem Listed.filterMap {location : CleanupLocation} {there : String → Prop}
    {names : List String} (hnodup : names.Nodup)
    {resultOf : String → Option TransactionCleanupCandidate}
    (hfor : ∀ name ∈ names, ∀ candidate, resultOf name = some candidate →
      CandidateFor reader blake3 root fingerprint files location name candidate)
    (hthere : ∀ name, there name ↔ name ∈ names ∧ resultOf name ≠ none) :
    Listed reader blake3 root fingerprint files location there (names.filterMap resultOf) where
  apart := by
    rw [List.pairwise_filterMap]
    refine List.Pairwise.imp_of_mem ?_ hnodup
    intro left right hleft hright hne first hfirst second hsecond heq
    apply hne
    rw [← (hfor left hleft first hfirst).transactionId_eq, heq,
      (hfor right hright second hsecond).transactionId_eq]
  counted candidate hmem := by
    rcases List.mem_filterMap.mp hmem with ⟨name, hname, hresult⟩
    have hcandidate := hfor name hname candidate hresult
    rw [hcandidate.transactionId_eq]
    exact hcandidate
  named name := by
    rw [hthere]
    constructor
    · rintro ⟨candidate, hmem, rfl⟩
      rcases List.mem_filterMap.mp hmem with ⟨name, hname, hresult⟩
      rw [(hfor name hname candidate hresult).transactionId_eq]
      exact ⟨hname, by rw [hresult]; exact nofun⟩
    · rintro ⟨hname, hresult⟩
      rcases Option.ne_none_iff_exists'.mp hresult with ⟨candidate, hcandidate⟩
      exact ⟨candidate, List.mem_filterMap.mpr ⟨name, hname, hcandidate⟩,
        (hfor name hname candidate hcandidate).transactionId_eq⟩

omit hready in
theorem Listed.listing {actives trashes : List TransactionCleanupCandidate}
    (hactives : Listed reader blake3 root fingerprint files .active (Finished reader root files)
      actives)
    (htrashes : Listed reader blake3 root fingerprint files .trash
      (fun name => files.entry (transactionCleanupTrashDir ++ [name]) ≠ none) trashes) :
    Listing reader blake3 root fingerprint files (actives ++ trashes) where
  apart := by
    rw [List.pairwise_append]
    refine ⟨hactives.apart.imp fun hne heq => hne (Prod.mk.inj heq).2,
      htrashes.apart.imp fun hne heq => hne (Prod.mk.inj heq).2, ?_⟩
    intro left hleft right hright heq
    have hlocation := (Prod.mk.inj heq).1
    rw [(hactives.counted left hleft).location_eq,
      (htrashes.counted right hright).location_eq] at hlocation
    cases hlocation
  counted candidate hmem := by
    rcases List.mem_append.mp hmem with hmem | hmem
    · rw [(hactives.counted candidate hmem).location_eq]
      exact hactives.counted candidate hmem
    · rw [(htrashes.counted candidate hmem).location_eq]
      exact htrashes.counted candidate hmem
  active id := by
    rw [← hactives.named]
    constructor
    · rintro ⟨candidate, hmem, hlocation, hid⟩
      rcases List.mem_append.mp hmem with hmem | hmem
      · exact ⟨candidate, hmem, hid⟩
      · rw [(htrashes.counted candidate hmem).location_eq] at hlocation
        cases hlocation
    · rintro ⟨candidate, hmem, hid⟩
      exact ⟨candidate, List.mem_append_left _ hmem,
        (hactives.counted candidate hmem).location_eq, hid⟩
  trash name := by
    rw [← htrashes.named]
    constructor
    · rintro ⟨candidate, hmem, hlocation, hname⟩
      rcases List.mem_append.mp hmem with hmem | hmem
      · rw [(hactives.counted candidate hmem).location_eq] at hlocation
        cases hlocation
      · exact ⟨candidate, hmem, hname⟩
    · rintro ⟨candidate, hmem, hname⟩
      exact ⟨candidate, List.mem_append_right _ hmem,
        (htrashes.counted candidate hmem).location_eq, hname⟩

theorem trashCandidates_eq_ok (order : LinearOrder String) :
    ∃ candidates, trashCandidates blake3 root order fingerprint files = .ok candidates ∧
      Listed reader blake3 root fingerprint files .trash
        (fun name => files.entry (transactionCleanupTrashDir ++ [name]) ≠ none) candidates := by
  have hcandidates : ∀ name, ∃ candidate,
      name ∈ files.names order transactionCleanupTrashDir →
        trashCandidate blake3 root fingerprint files name = .ok candidate ∧
          CandidateFor reader blake3 root fingerprint files .trash name candidate := by
    intro name
    by_cases hname : name ∈ files.names order transactionCleanupTrashDir
    · rcases trashCandidate_eq_ok hready ((mem_names order).mp hname) with ⟨candidate, hcandidate⟩
      exact ⟨candidate, fun _ => hcandidate⟩
    · exact ⟨⟨.trash, name, "", "", 0, 0, ""⟩, fun h => absurd h hname⟩
  choose candidateOf hcandidateOf using hcandidates
  refine ⟨(files.names order transactionCleanupTrashDir).map candidateOf, ?_, ?_⟩
  · rw [trashCandidates]
    rcases hentry : files.entry transactionCleanupTrashDir with _ | found
    · have hnames : files.names order transactionCleanupTrashDir = [] := by
        rw [List.eq_nil_iff_forall_not_mem]
        intro name hname
        exact (mem_names order).mp hname (hready.closed.free hentry _ (List.prefix_append _ _))
      rw [hnames]
      rfl
    · rw [hready.trash.directory found hentry]
      exact mapM_ok_eq_map fun name hname => (hcandidateOf name hname).1
  · rw [← List.filterMap_eq_map]
    refine Listed.filterMap (nodup_names order files _) (fun name hname candidate heq => ?_)
      fun name => ?_
    · rw [← Option.some.inj heq]
      exact (hcandidateOf name hname).2
    · rw [mem_names order]
      exact ⟨fun hentry => ⟨hentry, nofun⟩, And.left⟩

theorem activeCandidates_eq_ok (order : LinearOrder String) :
    ∃ results, (files.names order journalsDir).mapM
        (activeCandidate reader blake3 root fingerprint files) = .ok results ∧
      Listed reader blake3 root fingerprint files .active (Finished reader root files)
        results.reduceOption := by
  have hresults : ∀ id, ∃ result, activeCandidate reader blake3 root fingerprint files id =
      .ok result ∧ (Finished reader root files id ↔ result ≠ none) ∧
        ∀ candidate, result = some candidate →
          CandidateFor reader blake3 root fingerprint files .active id candidate := by
    intro id
    by_cases hfinished : Finished reader root files id
    · rcases activeCandidate_finished hready hfinished with ⟨candidate, hcandidate, hfor⟩
      refine ⟨some candidate, hcandidate, ⟨fun _ => nofun, fun _ => hfinished⟩, ?_⟩
      rintro _ ⟨⟩
      exact hfor
    · exact ⟨none, activeCandidate_unfinished hready hfinished,
        ⟨fun h => absurd h hfinished, fun h => absurd rfl h⟩, nofun⟩
  choose resultOf hresultOf hfinished hfor using hresults
  refine ⟨_, mapM_ok_eq_map fun id _ => hresultOf id, ?_⟩
  rw [List.reduceOption, List.filterMap_map]
  refine Listed.filterMap (nodup_names order files _) (fun id _ => hfor id) fun id => ?_
  refine ⟨fun hid => ⟨?_, (hfinished id).mp hid⟩, fun h => (hfinished id).mpr h.2⟩
  rcases hid with ⟨journal, ⟨hdirectory, -⟩, -⟩
  rw [mem_names, hdirectory]
  exact nofun

theorem transactionCleanupPlan_eq_ok (order : LinearOrder String) (projectId : ProjectId) :
    ∃ plan, transactionCleanupPlan reader blake3 root order fingerprint projectId files =
        .ok plan ∧ PlanFor reader blake3 root fingerprint files plan := by
  rcases @activeCandidates_eq_ok reader blake3 root fingerprint files hready order with
    ⟨actives, hactiveM, hactives⟩
  rcases @trashCandidates_eq_ok reader blake3 root fingerprint files hready order with
    ⟨trashes, htrashM, htrashes⟩
  have hsorted := (hactives.listing htrashes).perm (List.mergeSort_perm _ candidateOrder)
  have hcount := (@checkedSum_eq_ok (.corruption "transaction file count overflow") _ _).mpr
    ⟨(sum_candidates_le hsorted.apart fun candidate hmem =>
      (hsorted.counted candidate hmem).fileCount_eq).trans_lt hready.fileCount, rfl⟩
  have hbytes := (@checkedSum_eq_ok (.corruption "transaction payload size overflow") _ _).mpr
    ⟨(sum_candidates_le hsorted.apart fun candidate hmem =>
      (hsorted.counted candidate hmem).sizeBytes_eq).trans_lt hready.fileBytes, rfl⟩
  have hdirectory : files.entry journalsDir ≠ none := by
    rw [entry_of_layout hready.layout (by decide)]
    exact nofun
  generalize hcandidates : (actives.reduceOption ++ trashes).mergeSort candidateOrder =
    candidates at hsorted hcount hbytes
  have hplan : transactionCleanupPlan reader blake3 root order fingerprint projectId files =
      .ok ⟨transactionCleanupPlanSchemaVersion, projectId, candidates.length,
        (candidates.map TransactionCleanupCandidate.fileCount).sum,
        (candidates.map TransactionCleanupCandidate.sizeBytes).sum, candidates⟩ := by
    simp only [transactionCleanupPlan, hready.layout, except_bind_ok, if_neg hdirectory, hactiveM,
      htrashM, hcandidates, hcount, hbytes]
    rfl
  exact ⟨_, hplan, Listing.planFor hsorted rfl⟩

end Candidates

end CheckPo
