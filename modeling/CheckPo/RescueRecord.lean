/-
The record of a prepared rescue: it reads back as it was written exactly when its text, which
grows with the conflicts, is within the reader's limit.
-/
import CheckPo.JsonLengths
import CheckPo.RecoveryRescue

namespace CheckPo

/-! Paths of conflicts. -/

section Paths

variable {load : SnapshotId → CheckPoResult SnapshotFile} {checkpointId : SnapshotId}
  {operations : List FileOperation}

theorem pairwise_sortOperations (operations : List FileOperation) :
    (sortOperations operations).Pairwise fun left right => left.path ≤ right.path := by
  have hsorted : (sortOperations operations).Pairwise fun left right =>
      decide (left.path ≤ right.path) = true := by
    apply List.pairwise_mergeSort
    · exact fun _ _ _ hleft hright =>
        decide_eq_true ((of_decide_eq_true hleft).trans (of_decide_eq_true hright))
    · exact fun left right => by simpa using le_total left.path right.path
  exact hsorted.imp of_decide_eq_true

/-- A valid journal has one operation for a path. -/
theorem paths_nodup_of_valid
    (h : validateJournalOperations load checkpointId operations = .ok ()) :
    (operations.map FileOperation.path).Nodup := by
  simp only [validateJournalOperations, except_guard_eq_ok, not_not] at h
  rcases h with ⟨hsorted, hchain, -⟩
  have hle := (pairwise_sortOperations operations).isChain
  rw [hsorted] at hle
  have hlt : (operations.map FileOperation.path).IsChain (· < ·) := by
    rw [List.isChain_map]
    exact isChain_combine hle hchain fun left right hle hne => lt_of_le_of_ne hle hne
  exact hlt.pairwise.imp fun hlt => hlt.ne

variable {canonicalUtc : Timestamp → String} {blake3 : Bytes → Digest32} {tree : WorkingTree}

theorem path_of_recoveryConflict {operation : FileOperation} {current : CurrentFileState}
    {conflict : TransactionRecoveryConflict}
    (h : recoveryConflict operation current = .ok (some conflict)) :
    conflict.path = operation.path := by
  have hbuilt : ∀ {p : Bool} {built : TransactionRecoveryConflict},
      built.path = operation.path → (if p = true then some built else none) = some conflict →
        conflict.path = operation.path := by
    intro p built hpath hsome
    split at hsome
    · rwa [← Option.some.inj hsome]
    · cases hsome
  unfold recoveryConflict at h
  cases htype : operation.operationType with
  | restore | replace | delete =>
      simp only [htype, except_bind_ok, except_pure_eq_ok] at h
      exact hbuilt rfl h
  | setMetadata =>
      simp only [htype, except_bind_ok, except_bind_error, except_ensure_eq_ok,
        except_pure_eq_ok] at h
      exact hbuilt rfl h.2

theorem path_of_operationConflict {beforePaths : Finset TrackedUnityFilePath}
    {operation : FileOperation} {conflict : TransactionRecoveryConflict}
    (h : operationConflict canonicalUtc blake3 tree beforePaths operation = .ok (some conflict)) :
    conflict.path = operation.path := by
  rw [operationConflict, except_bind_eq_ok] at h
  rcases h with ⟨_ | current, -, h⟩
  · simp only [except_guard_eq_ok, except_pure_eq_ok] at h
    cases h.2
  · exact path_of_recoveryConflict h

theorem paths_sublist {beforePaths : Finset TrackedUnityFilePath}
    {found : List (Option TransactionRecoveryConflict)}
    (h : List.Forall₂ (fun operation conflict =>
      operationConflict canonicalUtc blake3 tree beforePaths operation = .ok conflict)
        operations found) :
    (found.reduceOption.map TransactionRecoveryConflict.path).Sublist
      (operations.map FileOperation.path) := by
  induction h with
  | nil => exact .slnil
  | @cons operation conflict operations found hhead htail ih =>
      rcases conflict with _ | conflict
      · exact ih.cons _
      · rw [List.reduceOption_cons_of_some, List.map_cons, List.map_cons,
          path_of_operationConflict hhead]
        exact ih.cons_cons _

variable {projectId : ProjectId} {journalToVec : TransactionJournal → Bytes}
  {journal : TransactionJournal} {plan : TransactionRecoveryConflictPlan}

theorem conflict_paths_nodup
    (hvalid : validateJournalOperations load journal.checkpointId journal.operations = .ok ())
    (h : analyzeTransactionRecoveryConflicts canonicalUtc blake3 tree projectId journalToVec
      journal = .ok plan) :
    (plan.conflicts.map TransactionRecoveryConflict.path).Nodup := by
  simp only [analyzeTransactionRecoveryConflicts, except_bind_eq_ok, mapM_eq_ok_iff,
    except_pure_eq_ok] at h
  rcases h with ⟨found, hfound, rfl⟩
  have hperm := (List.mergeSort_perm found.reduceOption fun left right =>
    decide (left.path ≤ right.path)).map TransactionRecoveryConflict.path
  exact hperm.nodup_iff.mpr ((paths_nodup_of_valid hvalid).sublist (paths_sublist hfound))

end Paths

/-! The text of a record. -/

/-- The bytes of a conflict in the record, with the comma that separates it. -/
def conflictBytes (conflict : TransactionRecoveryConflict) (exported : Bool) : Nat :=
  quotedBytes conflict.path.text + decimalBytes conflict.sizeBytes +
    quotedBytes conflict.modifiedAtUtc + flagBytes conflict.metadataOnly + flagBytes exported + 162

/-- The bytes of everything else in a record of some conflicts. -/
def headerBytes (plan : TransactionRecoveryConflictPlan) (exportDirectory : Option String)
    (nowUtc : String) : Nat :=
  quotedBytes plan.transactionId + quotedBytes plan.planId + quotedBytes nowUtc +
    exportDirectory.elim 0 (fun path => quotedBytes path + 19) + 195

theorem utf8Length_conflict (conflict : TransactionRecoveryConflict) (exported : Bool) :
    utf8Length (RecoveryRescueEntry.toJson ⟨conflict, exported⟩).compact + 1 =
      conflictBytes conflict exported := by
  have hnames : quotedBytes "conflict" = 10 ∧ quotedBytes "path" = 6 ∧
      quotedBytes "currentHash" = 13 ∧ quotedBytes "sizeBytes" = 11 ∧
      quotedBytes "modifiedAtUtc" = 15 ∧ quotedBytes "metadataOnly" = 14 ∧
      quotedBytes "exported" = 10 ∧ utf8Length [] = 0 := by decide +kernel
  simp only [RecoveryRescueEntry.toJson, TransactionRecoveryConflict.toJson, JsonValue.compact,
    JsonValue.compactMembers, utf8Length_cons, utf8Length_append, utf8Length_string, hnames,
    length_punctuation, utf8Length_toHex, utf8Length_bool]
  rw [conflictBytes, decimalBytes]
  omega

variable (plan : TransactionRecoveryConflictPlan) (selected : Finset TrackedUnityFilePath)
  (exportDirectory : Option String) (nowUtc : String)

/-- The bytes of the record of a plan, added up over its conflicts. -/
def rescueRecordBytes : Nat :=
  headerBytes plan exportDirectory nowUtc +
    (plan.conflicts.map fun conflict =>
      conflictBytes conflict (decide (conflict.path ∈ selected))).sum

theorem length_preparedRescueRecord (hconflicts : plan.conflicts ≠ []) :
    (jsonBytes (preparedRescueRecord plan selected exportDirectory nowUtc).toJson).length =
      rescueRecordBytes plan selected exportDirectory nowUtc := by
  have hnames : quotedBytes "schemaVersion" = 15 ∧ quotedBytes "transactionId" = 15 ∧
      quotedBytes "checkpointId" = 14 ∧ quotedBytes "planId" = 8 ∧
      quotedBytes "createdAtUtc" = 14 ∧ quotedBytes "state" = 7 ∧ quotedBytes "prepared" = 10 ∧
      quotedBytes "exportDirectory" = 17 ∧ quotedBytes "entries" = 9 ∧
      quotedBytes "completedPaths" = 16 ∧ utf8Length [] = 0 ∧
      utf8Length (JsonValue.decimal recoveryRescueRecordSchemaVersion) = 1 := by decide +kernel
  have hentries : utf8Length (JsonValue.array ((plan.conflicts.map fun conflict =>
      RecoveryRescueEntry.mk conflict (decide (conflict.path ∈ selected))).map
        RecoveryRescueEntry.toJson)).compact =
      (plan.conflicts.map fun conflict =>
        conflictBytes conflict (decide (conflict.path ∈ selected))).sum + 1 := by
    rw [utf8Length_array (by simpa using hconflicts), List.map_map, List.map_map]
    simp only [Function.comp_def, utf8Length_conflict]
  have hlength : (jsonBytes (preparedRescueRecord plan selected exportDirectory nowUtc).toJson).length =
      utf8Length (preparedRescueRecord plan selected exportDirectory nowUtc).toJson.compact :=
    congrArg List.length (utf8_ofList _)
  rw [hlength, rescueRecordBytes, headerBytes]
  cases exportDirectory
  all_goals
    simp only [RecoveryRescueRecord.toJson, preparedRescueRecord, RecoveryRescueState.toJson,
      Option.map_none, Option.map_some, Option.toList_none, Option.toList_some, Option.elim_none,
      Option.elim_some, List.append_nil, List.cons_append, List.nil_append, List.map_nil,
      JsonValue.compact, JsonValue.compactMembers, utf8Length_cons, utf8Length_append,
      utf8Length_string, hnames, hentries, length_punctuation, utf8Length_toHex]
    clear hnames hentries hlength
    omega

/-! Reading the record back. -/

section ReadBack

variable {canonicalUtc : Timestamp → String} {blake3 : Bytes → Digest32} {tree : WorkingTree}
  {ensureAvailableSpace : Nat → CheckPoResult Unit} {journal : TransactionJournal}
  {plan : TransactionRecoveryConflictPlan} {selected : Finset TrackedUnityFilePath}
  {exportDirectory : Option String} {nowUtc : String} {directory final : RescueDirectory}

theorem active_of_prepare
    (h : prepareRecoveryConflictRescue canonicalUtc blake3 tree ensureAvailableSpace journal plan
      selected exportDirectory nowUtc directory = .ok final) :
    validateTransactionId plan.transactionId = .ok () ∧
      validateRecoveryConflictPlanId plan.planId = .ok () ∧
      final.active = some (.file
        (jsonBytes (preparedRescueRecord plan selected exportDirectory nowUtc).toJson)) := by
  simp only [prepareRecoveryConflictRescue, except_guard_eq_ok, except_bind_eq_ok,
    writeRecoveryRescueRecord, except_pure_eq_ok] at h
  rcases h with ⟨-, required, -, ⟨⟩, -, preserved, -, ⟨⟩, -, ⟨⟩, htransaction, ⟨⟩, hplan, rfl⟩
  exact ⟨htransaction, hplan, rfl⟩

theorem validate_preparedRescueRecord {isAbsolute : String → Bool}
    (htransaction : validateTransactionId plan.transactionId = .ok ())
    (hplan : validateRecoveryConflictPlanId plan.planId = .ok ())
    (hpaths : (plan.conflicts.map TransactionRecoveryConflict.path).Nodup)
    (hconflicts : plan.conflicts ≠ [])
    (hexport : ∀ path ∈ exportDirectory, isAbsolute path = true) :
    validateRecoveryRescueRecord isAbsolute
      (preparedRescueRecord plan selected exportDirectory nowUtc) plan.transactionId = .ok () := by
  have hentries : (preparedRescueRecord plan selected exportDirectory nowUtc).entries ≠ [] := by
    simpa [preparedRescueRecord] using hconflicts
  have hpath : (preparedRescueRecord plan selected exportDirectory nowUtc).entries.map
      (fun entry => entry.conflict.path) =
        plan.conflicts.map TransactionRecoveryConflict.path := by
    rw [preparedRescueRecord, List.map_map]
    rfl
  have hcard : (plan.conflicts.map TransactionRecoveryConflict.path).toFinset.card =
      (preparedRescueRecord plan selected exportDirectory nowUtc).entries.length := by
    rw [List.toFinset_card_of_nodup hpaths, preparedRescueRecord, List.length_map, List.length_map]
  have habsolute : exportDirectory.any (fun path => !isAbsolute path) = false := by
    rcases exportDirectory with _ | path
    · rfl
    · rw [Option.any_some, hexport path rfl, Bool.not_true]
  simp only [validateRecoveryRescueRecord, hpath, hcard, hentries]
  simp only [preparedRescueRecord, htransaction, hplan, habsolute, ne_eq, not_true_eq_false,
    if_false, except_bind_ok, or_false, List.any_nil, Bool.false_eq_true, List.toFinset_nil,
    Finset.card_empty, List.length_nil]
  rfl

theorem representable_preparedRescueRecord
    (hsizes : ∀ conflict ∈ plan.conflicts, conflict.sizeBytes < 2 ^ 64) :
    (preparedRescueRecord plan selected exportDirectory nowUtc).Representable := by
  refine ⟨show recoveryRescueRecordSchemaVersion < 2 ^ 32 by decide, fun entry hentry => ?_⟩
  rcases List.mem_map.mp hentry with ⟨conflict, hconflict, rfl⟩
  exact hsizes conflict hconflict

/-- The record of a prepared rescue of a valid journal's conflicts, whose sizes are `u64`s,
reads back as it was written exactly when it takes at most 8 MiB, which each conflict has its
share of. -/
theorem rescueRecord_readBack_iff {load : SnapshotId → CheckPoResult SnapshotFile}
    {analyzed : WorkingTree} {projectId : ProjectId} {journalToVec : TransactionJournal → Bytes}
    (reader : RescueReader) {isAbsolute : String → Bool}
    (hvalid : validateJournalOperations load journal.checkpointId journal.operations = .ok ())
    (hanalysis : analyzeTransactionRecoveryConflicts canonicalUtc blake3 analyzed projectId
      journalToVec journal = .ok plan)
    (hconflicts : plan.conflicts ≠ [])
    (hsizes : ∀ conflict ∈ plan.conflicts, conflict.sizeBytes < 2 ^ 64)
    (hexport : ∀ path ∈ exportDirectory, isAbsolute path = true)
    (hprepare : prepareRecoveryConflictRescue canonicalUtc blake3 tree ensureAvailableSpace
      journal plan selected exportDirectory nowUtc directory = .ok final) :
    readActiveRecoveryRescueRecord reader isAbsolute plan.transactionId final =
        .ok (some (preparedRescueRecord plan selected exportDirectory nowUtc)) ↔
      rescueRecordBytes plan selected exportDirectory nowUtc ≤ maxRecoveryRescueRecordBytes := by
  rcases active_of_prepare hprepare with ⟨htransaction, hplan, hactive⟩
  have hchecked : validateRecoveryRescueRecord isAbsolute
      (preparedRescueRecord plan selected exportDirectory nowUtc) plan.transactionId = .ok () :=
    validate_preparedRescueRecord htransaction hplan (conflict_paths_nodup hvalid hanalysis)
      hconflicts hexport
  rw [← length_preparedRescueRecord plan selected exportDirectory nowUtc hconflicts,
    readActiveRecoveryRescueRecord, hactive]
  simp only [readBytesBounded, except_bind_eq_ok, except_guard_eq_ok, not_lt, except_pure_eq_ok,
    Except.ok.injEq]
  constructor
  · rintro ⟨bytes, ⟨hbytes, -⟩, -⟩
    exact hbytes
  · intro hbytes
    refine ⟨_, ⟨hbytes, rfl⟩, _, ?_, ⟨⟩, hchecked, rfl⟩
    rw [reader.fromSlice_toVec _ (representable_preparedRescueRecord hsizes), jsonResult]

end ReadBack

end CheckPo
