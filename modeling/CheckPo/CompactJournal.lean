/-
A reader of compact journals, and a plan of so many operations that apply accepts and whose
journal cannot be read back.
-/
import CheckPo.CompactRescue
import CheckPo.JournalRecord

namespace CheckPo

/-! Reading. -/

def optionalMember {α : Type} (read : JsonValue → Option α) (name : String)
    (members : List (String × JsonValue)) : Option (Option α) :=
  match members.lookup name with
  | none | some .null => some none
  | some value => (read value).map some

def textOfJson : JsonValue → Option String
  | .string text => some text
  | _ => none

def numberOfJson : JsonValue → Option Nat
  | .number value => some value
  | _ => none

def hashOfJson : JsonValue → Option ObjectId
  | .string text => (parseLowerHexId "object" text).toOption
  | _ => none

def operationTypeOfText : String → Option FileOperationType
  | "restore" => some .restore
  | "replace" => some .replace
  | "delete" => some .delete
  | "setMetadata" => some .setMetadata
  | _ => none

def operationOfJson : JsonValue → Option FileOperation
  | .object members => do
      return {
        operationType := ← operationTypeOfText (← stringMember "operationType" members)
        path := ← (TrackedUnityFilePath.parse (← stringMember "path" members)).toOption
        beforeHash := ← optionalMember hashOfJson "beforeHash" members
        beforeSizeBytes := ← optionalMember numberOfJson "beforeSizeBytes" members
        beforeModifiedAtUtc := ← optionalMember textOfJson "beforeModifiedAtUtc" members
        afterHash := ← optionalMember hashOfJson "afterHash" members
        afterSizeBytes := ← optionalMember numberOfJson "afterSizeBytes" members
        afterModifiedAtUtc := ← optionalMember textOfJson "afterModifiedAtUtc" members }
  | _ => none

def journalStateOfText : String → Option JournalState
  | "created" => some .created
  | "staged" => some .staged
  | "applying" => some .applying
  | "committed" => some .committed
  | "recovered" => some .recovered
  | _ => none

def planKindOfText : String → Option OperationPlanKind
  | "restore" => some .restore
  | "discard" => some .discard
  | _ => none

def journalOfJson : JsonValue → Option TransactionJournal
  | .object members => do
      return {
        schemaVersion := ← numberMember "schemaVersion" members
        transactionId := ← stringMember "transactionId" members
        state := ← journalStateOfText (← stringMember "state" members)
        checkpointId :=
          ← (parseLowerHexId "snapshot" (← stringMember "checkpointId" members)).toOption
        kind := ← planKindOfText (← stringMember "kind" members)
        operations := ← (← arrayMember "operations" members).mapM operationOfJson
        directoriesToRemove := ← (← arrayMember "directoriesToRemove" members).mapM pathOfJson
        directoriesToCreate := ← (← arrayMember "directoriesToCreate" members).mapM pathOfJson
        createdAtUtc := ← stringMember "createdAtUtc" members
        updatedAtUtc := ← stringMember "updatedAtUtc" members }
  | _ => none

def schemaVersionOfJson : JsonValue → Option Nat
  | .object members => numberMember "schemaVersion" members
  | _ => none

/-- What a text means, as far as it is compact JSON. -/
def fromSlice {α : Type} (read : JsonValue → Option α) (bytes : Bytes) : Except String α :=
  match (fromUtf8 bytes).bind fun text => (JsonValue.parse text.toList).bind read with
  | some value => .ok value
  | none => .error "expected value"

/-- Compact JSON reads a journal as `serde_json` does. -/
def compactJournalReader : JournalReader := ⟨fromSlice schemaVersionOfJson, fromSlice journalOfJson⟩

theorem fromSlice_toVec {α : Type} {read : JsonValue → Option α} {value : JsonValue} {result : α}
    (h : read value = some result) : fromSlice read (jsonBytes value) = .ok result := by
  simp only [fromSlice, jsonBytes, fromUtf8_utf8, Option.bind_some, String.toList_ofList,
    JsonValue.parse_compact, h]

theorem optionalMember_eq {α : Type} {read : JsonValue → Option α} {write : α → JsonValue}
    (hread : ∀ value, read (write value) = some value) (hnull : ∀ value, write value ≠ .null)
    {name : String} {members : List (String × JsonValue)} {value : Option α}
    (h : members.lookup name = some (optionJson write value)) :
    optionalMember read name members = some value := by
  cases value with
  | none => simp only [optionalMember, h, optionJson]
  | some value =>
      rw [optionJson] at h
      rw [optionalMember, h]
      split
      · next heq => cases heq
      · next heq => exact absurd (Option.some.inj heq) (hnull value)
      · next heq =>
          rw [← Option.some.inj heq, hread]
          rfl

theorem operationOfJson_toJson (operation : FileOperation) :
    operationOfJson operation.toJson = some operation := by
  rcases operation with ⟨operationType, path, beforeHash, beforeSize, beforeTime, afterHash,
    afterSize, afterTime⟩
  have hhash : ∀ hash : ObjectId, hashOfJson (.string hash.toHex) = some hash :=
    fun hash => toHex_toOption "object" hash
  rw [FileOperation.toJson]
  have hbeforeHash := fun members h => @optionalMember_eq _ _ _ hhash (by simp) "beforeHash"
    members beforeHash h
  have hafterHash := fun members h => @optionalMember_eq _ _ _ hhash (by simp) "afterHash"
    members afterHash h
  have hbeforeSize := fun members h => @optionalMember_eq _ numberOfJson .number (fun _ => rfl) (by simp)
    "beforeSizeBytes" members beforeSize h
  have hafterSize := fun members h => @optionalMember_eq _ numberOfJson .number (fun _ => rfl) (by simp)
    "afterSizeBytes" members afterSize h
  have hbeforeTime := fun members h => @optionalMember_eq _ textOfJson .string (fun _ => rfl) (by simp)
    "beforeModifiedAtUtc" members beforeTime h
  have hafterTime := fun members h => @optionalMember_eq _ textOfJson .string (fun _ => rfl) (by simp)
    "afterModifiedAtUtc" members afterTime h
  have htype : operationTypeOfText operationType.text = some operationType := by
    cases operationType <;> rfl
  have htypeJson : operationType.toJson = .string operationType.text := by
    cases operationType <;> rfl
  simp only [operationOfJson, htypeJson, stringMember]
  rw [hbeforeHash _ (by simp [List.lookup]), hafterHash _ (by simp [List.lookup]),
    hbeforeSize _ (by simp [List.lookup]), hafterSize _ (by simp [List.lookup]),
    hbeforeTime _ (by simp [List.lookup]), hafterTime _ (by simp [List.lookup])]
  simp [List.lookup, htype, parse_text_toOption]

theorem journalOfJson_toJson (journal : TransactionJournal) :
    journalOfJson journal.toJson = some journal := by
  rcases journal with ⟨schemaVersion, transactionId, state, checkpointId, kind, operations,
    remove, create, createdAtUtc, updatedAtUtc⟩
  have hoperations := mapM_of_forall operationOfJson_toJson operations
  have hpath : ∀ path : TrackedUnityFilePath, pathOfJson (.string path.text) = some path :=
    parse_text_toOption
  have hremove := mapM_of_forall hpath remove
  have hcreate := mapM_of_forall hpath create
  cases state <;> cases kind <;>
    simp [journalOfJson, TransactionJournal.toJson, JournalState.toJson, OperationPlanKind.toJson,
      journalStateOfText, planKindOfText, stringMember, numberMember, arrayMember, List.lookup,
      toHex_toOption, hoperations, hremove, hcreate]

theorem compactJournalReader_lawful : compactJournalReader.Lawful where
  schemaVersion_toVec _ _ := fromSlice_toVec rfl
  journal_toVec journal _ := fromSlice_toVec (journalOfJson_toJson journal)

namespace Sample

/-! A plan for a crowd of files. -/

def crowdOperations (count : Nat) : List FileOperation := (crowdPaths count).map crowdOperation

/-- The files have a time that the checkpoint does not have. -/
def crowdTime (_ : Timestamp) : String := "1970-01-01T00:00:01Z"

def crowdRestore (count : Nat) : OperationPlan :=
  .new wayJournal.checkpointId .restore none (crowdOperations count)

theorem sortOperations_crowd (count : Nat) :
    sortOperations (crowdOperations count) = crowdOperations count := by
  apply List.mergeSort_of_pairwise
  rw [crowdOperations, List.pairwise_map]
  exact (crowdPaths_pairwise count).imp fun hlt => decide_eq_true hlt.le

theorem filter_crowd (keep : FileOperation → Bool) (count : Nat)
    (h : ∀ path, keep (crowdOperation path) = false) :
    (crowdOperations count).filter keep = [] := by
  rw [List.filter_eq_nil_iff]
  intro operation hoperation
  rcases List.mem_map.mp hoperation with ⟨path, -, rfl⟩
  rw [h path]
  exact Bool.false_ne_true

theorem validatePlanShape_crowd (count : Nat) :
    validatePlanShape (fun _ => .ok (crowdCheckpoint count)) (crowdRestore count) = .ok () := by
  have hstaged : OperationPlan.stagedSizes (crowdOperations count) = [] := by
    rw [OperationPlan.stagedSizes, filter_crowd _ _ fun _ => rfl]
    rfl
  have hbackup : OperationPlan.backupSizes (crowdOperations count) = [] := by
    rw [OperationPlan.backupSizes, filter_crowd _ _ fun _ => rfl]
    rfl
  have hvalid : validateJournalOperations (fun _ => .ok (crowdCheckpoint count))
      wayJournal.checkpointId (crowdOperations count) = .ok () := crowdJournal_valid count
  have hsum : ∀ failure, checkedSum failure [] = .ok 0 := fun _ => rfl
  have hselection : validatePlanSelection (crowdRestore count) = .ok () := rfl
  have hremove : sortDedup removalOrder [] = [] := by simp [sortDedup]
  have hcreate : sortDedup (fun left right : TrackedUnityFilePath => decide (left ≤ right)) [] =
      [] := by simp [sortDedup]
  have htopology : validateJournalDirectoryTopology (crowdOperations count) [] [] = .ok () := by
    simp only [validateJournalDirectoryTopology, hremove, hcreate]
    rfl
  rw [validatePlanShape, hselection]
  simp only [crowdRestore, OperationPlan.new, sortOperations_crowd, hstaged, hbackup, hsum,
    hremove, hcreate, hvalid, htopology, except_bind_ok]
  simp [saturatingAdd]

theorem recheckOperation_crowd {count : Nat} {path : TrackedUnityFilePath}
    (h : path ∈ crowdPaths count) :
    recheckOperation crowdTime lengthDigest (crowdTree count) (crowdRestore count)
      (crowdOperation path) = .ok () := by
  have hlookup : (crowdTree count).lookup path.segments = some (.file ⟨[], ⟨0, 0⟩⟩) :=
    crowdFiles_entry h
  have hstate : recheckedState crowdTime lengthDigest (crowdTree count) (crowdRestore count)
      (crowdOperation path) = .ok (some ⟨lengthDigest [], 0, "1970-01-01T00:00:01Z"⟩) := by
    simp only [recheckedState, show (crowdOperation path).path = path from rfl,
      WorkingTree.symlinkMetadata_entry hlookup, WorkingTree.currentFileStateFromAnchor,
      WorkingTree.openFile_entry hlookup]
    rfl
  rw [recheckOperation, hstate]
  rfl

theorem validateExpectedPlan_crowd (count : Nat) :
    validateExpectedPlan crowdTime lengthDigest (crowdTree count)
      (fun _ => .ok (crowdCheckpoint count)) (fun _ => .ok "") (crowdRestore count) = .ok () := by
  have hauthorization : validateOperationPlanAuthorization (fun _ => .ok "") (crowdRestore count) =
      .ok () := by
    rw [validateOperationPlanAuthorization, operationPlanAuthorization, except_bind_ok,
      if_pos (show authorizationMatches (crowdRestore count).authorization "" = true from
        authorizationMatches_self "")]
    rfl
  have hoperations : (crowdRestore count).operations = crowdOperations count :=
    sortOperations_crowd count
  have hrecheck : recheckPreconditions crowdTime lengthDigest (crowdTree count)
      (crowdRestore count) = .ok () := by
    have hall : (crowdOperations count).forM (recheckOperation crowdTime lengthDigest
        (crowdTree count) (crowdRestore count)) = .ok () := by
      rw [forM_eq_ok_iff]
      intro operation hoperation
      rcases List.mem_map.mp hoperation with ⟨path, hpath, rfl⟩
      exact recheckOperation_crowd hpath
    rw [recheckPreconditions, hoperations, hall]
    rfl
  rw [validateExpectedPlan, validatePlanShape_crowd, hauthorization, hrecheck]
  rfl

/-- Nothing speaks against an apply. -/
def openGuards : ApplyGuards := ⟨.ok (), .ok (), .ok (), fun _ => .ok ()⟩

def crowdTransaction : String := "0123456789abcdef0123456789abcdef"

def crowdBegun (count : Nat) : TransactionJournal :=
  (crowdRestore count).journal crowdTransaction "1970-01-01T00:00:03Z"

theorem beginApply_crowd {count : Nat} (hcount : 0 < count) (hlimit : count ≤ 2 ^ 32) :
    beginApply crowdTime lengthDigest (crowdTree count) (fun _ => .ok (crowdCheckpoint count))
      (fun _ => .ok "") openGuards true (crowdRestore count) crowdTransaction
      "1970-01-01T00:00:03Z" = .ok (some (crowdBegun count)) := by
  refine beginApply_eq_some.mpr ⟨rfl, rfl, fun _ => rfl, rfl, validateExpectedPlan_crowd count,
    ?_, rfl, rfl⟩
  have hne : crowdOperations count ≠ [] := by
    rw [← List.length_pos_iff_ne_nil, crowdOperations, List.length_map, length_crowdPaths hlimit]
    exact hcount
  change (!(sortOperations (crowdOperations count)).isEmpty) = true
  rw [sortOperations_crowd]
  simpa using hne

theorem representable_crowdOperation (path : TrackedUnityFilePath) :
    (crowdOperation path).Representable := by
  constructor
  · rintro _ ⟨⟩
    exact Nat.two_pow_pos 64
  · rintro _ ⟨⟩
    exact Nat.two_pow_pos 64

theorem writtenJournal_crowd {count : Nat} (hcount : 0 < count) (hlimit : count ≤ 2 ^ 32) :
    WrittenJournal crowdTime lengthDigest (crowdBegun count) := by
  have hsizes : ∀ operation ∈ (crowdRestore count).operations, operation.Representable := by
    intro operation hoperation
    change operation ∈ sortOperations (crowdOperations count) at hoperation
    rw [sortOperations_crowd] at hoperation
    rcases List.mem_map.mp hoperation with ⟨path, -, rfl⟩
    exact representable_crowdOperation path
  exact ⟨_, _, _, _, _, _, _, _, hsizes, beginApply_crowd hcount hlimit, .created, _, rfl⟩

theorem operationBytes_crowd {path : TrackedUnityFilePath} {count : Nat}
    (h : path ∈ crowdPaths count) : operationBytes (crowdOperation path) = 399 := by
  rcases mem_crowdPaths h with ⟨index, rfl⟩
  have htype : quotedBytes FileOperationType.setMetadata.text = 13 := by decide +kernel
  have htimes : quotedBytes "1970-01-01T00:00:01Z" = 22 ∧ quotedBytes "1970-01-01T00:00:02Z" = 22 :=
    by decide +kernel
  have hsize : decimalBytes 0 = 1 := rfl
  simp only [operationBytes, crowdOperation, quotedBytes_idAsset, htype, htimes, hsize,
    Option.map_some, optionBytes, Option.getD_some]

/-- A journal takes its operations' bytes and more. -/
theorem crowd_le_journalBytes {count : Nat} (hcount : 0 < count) (hlimit : count ≤ 2 ^ 32) :
    count * 400 ≤ journalBytes (crowdBegun count) := by
  have hoperations : (crowdBegun count).operations = crowdOperations count :=
    sortOperations_crowd count
  have hsizes : (crowdOperations count).map operationBytes = List.replicate count 399 := by
    rw [crowdOperations, List.map_map, List.map_congr_left fun path hpath =>
      show (operationBytes ∘ crowdOperation) path = 399 from operationBytes_crowd hpath,
      List.map_const', length_crowdPaths hlimit]
  have hne : List.replicate count 399 ≠ [] := by
    rw [Ne, List.replicate_eq_nil_iff]
    omega
  rw [journalBytes, hoperations, hsizes, arrayBytes, if_neg hne, List.map_replicate,
    List.sum_replicate, smul_eq_mul]
  omega

theorem journalBytes_crowd_long {count : Nat} (hcount : 0 < count) (hlimit : count ≤ 2 ^ 32)
    (hlong : maxTransactionJournalBytes < count * 400) :
    maxTransactionJournalBytes < journalBytes (crowdBegun count) :=
  lt_of_lt_of_le hlong (crowd_le_journalBytes hcount hlimit)

def transactions : String := "transactions"

/-- Of a journal that takes 400 bytes for each operation, too many files are too much. -/
theorem crowd_not_readBack {count : Nat} (hcount : 0 < count) (hlimit : count ≤ 2 ^ 32)
    (hlong : maxTransactionJournalBytes < count * 400) :
    WrittenJournal crowdTime lengthDigest (crowdBegun count) ∧
      readTransactionJournal compactJournalReader "journal.json"
        (jsonBytes (crowdBegun count).toJson) ≠ .ok (crowdBegun count) ∧
      ∀ pending, pendingTransactionsForProject compactJournalReader transactions (.ok ())
        (some [transactionEntry (crowdBegun count)]) ≠ .ok pending := by
  have hbytes := journalBytes_crowd_long hcount hlimit hlong
  refine ⟨writtenJournal_crowd hcount hlimit, ?_, fun pending hpending => ?_⟩
  · rw [readTransactionJournal_long _ _ hbytes]
    exact nofun
  · simp only [pendingTransactionsForProject, List.mapM_cons, pendingTransaction,
      transactionEntry, readTransactionJournal_long _ _ hbytes, except_bind_ok,
      except_bind_error] at hpending
    cases hpending

end Sample

/-- Apply accepts a plan for 1,342,178 files, writes its journal and cannot read it back;
no listing of the transactions succeeds from then on. -/
theorem writtenJournal_not_readBack :
    WrittenJournal Sample.crowdTime lengthDigest (Sample.crowdBegun 1342178) ∧
      readTransactionJournal compactJournalReader "journal.json"
        (jsonBytes (Sample.crowdBegun 1342178).toJson) ≠ .ok (Sample.crowdBegun 1342178) ∧
      ∀ pending, pendingTransactionsForProject compactJournalReader Sample.transactions (.ok ())
        (some [transactionEntry (Sample.crowdBegun 1342178)]) ≠ .ok pending := by
  apply Sample.crowd_not_readBack
  · norm_num
  · norm_num
  · norm_num [maxTransactionJournalBytes]

/-- The condition at one file, whose journal is small enough. -/
theorem writtenJournals_readBack_iff_one :
    ((∀ journal ∈ [Sample.crowdBegun 1], readTransactionJournal compactJournalReader
        s!"{Sample.transactions}/{journal.transactionId}/journal.json" (jsonBytes journal.toJson) =
          .ok journal) ∧
      pendingTransactionsForProject compactJournalReader Sample.transactions (.ok ())
          (some ([Sample.crowdBegun 1].map transactionEntry)) =
        .ok (([Sample.crowdBegun 1].filter fun journal => !journal.state.isTerminal).map
          (pendingOf Sample.transactions))) ↔
      ∀ journal ∈ [Sample.crowdBegun 1], journalBytes journal ≤ maxTransactionJournalBytes := by
  apply @writtenJournals_readBack_iff Sample.crowdTime lengthDigest _ compactJournalReader_lawful
  intro journal hjournal
  rw [List.mem_singleton.mp hjournal]
  apply Sample.writtenJournal_crowd
  · norm_num
  · norm_num

end CheckPo
