/-
The text of a transaction journal: it reads back as it was written, and the transaction is
known as pending or not, exactly when its text, which grows with the operations, is within
the reader's limit.
-/
import CheckPo.JsonLengths
import CheckPo.PendingTransactions

namespace CheckPo

/-! The text of a journal. -/

/-- The bytes of an optional field, whose value takes `size`. -/
def optionBytes (size : Option Nat) : Nat := size.getD 4

/-- The bytes of an array of items of the given sizes. -/
def arrayBytes (sizes : List Nat) : Nat :=
  if sizes = [] then 2 else (sizes.map fun size => size + 1).sum + 1

def FileOperationType.text : FileOperationType → String
  | .restore => "restore"
  | .replace => "replace"
  | .delete => "delete"
  | .setMetadata => "setMetadata"

def operationBytes (operation : FileOperation) : Nat :=
  quotedBytes operation.operationType.text + quotedBytes operation.path.text +
    optionBytes (operation.beforeHash.map fun _ => 66) +
    optionBytes (operation.beforeSizeBytes.map decimalBytes) +
    optionBytes (operation.beforeModifiedAtUtc.map quotedBytes) +
    optionBytes (operation.afterHash.map fun _ => 66) +
    optionBytes (operation.afterSizeBytes.map decimalBytes) +
    optionBytes (operation.afterModifiedAtUtc.map quotedBytes) + 135

def JournalState.text : JournalState → String
  | .created => "created"
  | .staged => "staged"
  | .applying => "applying"
  | .committed => "committed"
  | .recovered => "recovered"

def OperationPlanKind.text : OperationPlanKind → String
  | .restore => "restore"
  | .discard => "discard"

/-- The bytes of a journal, added up over its operations and directories. -/
def journalBytes (journal : TransactionJournal) : Nat :=
  decimalBytes journal.schemaVersion + quotedBytes journal.transactionId +
    quotedBytes journal.state.text + quotedBytes journal.kind.text +
    arrayBytes (journal.operations.map operationBytes) +
    arrayBytes (journal.directoriesToRemove.map fun path => quotedBytes path.text) +
    arrayBytes (journal.directoriesToCreate.map fun path => quotedBytes path.text) +
    quotedBytes journal.createdAtUtc + quotedBytes journal.updatedAtUtc + 226

theorem utf8Length_option {α : Type} {toJson : α → JsonValue} {size : α → Nat}
    (h : ∀ value, utf8Length (toJson value).compact = size value) (value : Option α) :
    utf8Length (optionJson toJson value).compact = optionBytes (value.map size) := by
  cases value with
  | none => rfl
  | some value => exact h value

theorem utf8Length_arrayJson {α : Type} {toJson : α → JsonValue} {size : α → Nat}
    (h : ∀ value, utf8Length (toJson value).compact = size value) (values : List α) :
    utf8Length (JsonValue.array (values.map toJson)).compact = arrayBytes (values.map size) := by
  cases values with
  | nil => rfl
  | cons value values =>
      rw [utf8Length_array (by simp), arrayBytes, if_neg (by simp), List.map_map,
        List.map_map]
      simp only [Function.comp_def, h]

theorem utf8Length_operation (operation : FileOperation) :
    utf8Length operation.toJson.compact = operationBytes operation := by
  have hnames : quotedBytes "operationType" = 15 ∧ quotedBytes "path" = 6 ∧
      quotedBytes "beforeHash" = 12 ∧ quotedBytes "beforeSizeBytes" = 17 ∧
      quotedBytes "beforeModifiedAtUtc" = 21 ∧ quotedBytes "afterHash" = 11 ∧
      quotedBytes "afterSizeBytes" = 16 ∧ quotedBytes "afterModifiedAtUtc" = 20 ∧
      utf8Length [] = 0 := by decide +kernel
  have htype : utf8Length operation.operationType.toJson.compact =
      quotedBytes operation.operationType.text := by
    cases operation.operationType <;> rfl
  have hhash : ∀ hash : Option ObjectId, utf8Length (optionJson (fun hash : ObjectId =>
      JsonValue.string hash.toHex) hash).compact = optionBytes (hash.map fun _ => 66) :=
    utf8Length_option fun hash => utf8Length_toHex hash
  have hsize : ∀ size : Option Nat, utf8Length (optionJson JsonValue.number size).compact =
      optionBytes (size.map decimalBytes) := utf8Length_option fun _ => rfl
  have htime : ∀ time : Option String, utf8Length (optionJson JsonValue.string time).compact =
      optionBytes (time.map quotedBytes) := utf8Length_option fun _ => rfl
  rw [FileOperation.toJson]
  simp only [JsonValue.compact, JsonValue.compactMembers, utf8Length_cons, utf8Length_append,
    utf8Length_string, hnames, htype, hhash, hsize, htime, length_punctuation]
  rw [operationBytes]
  clear hnames htype hhash hsize htime
  omega

theorem length_journal (journal : TransactionJournal) :
    (jsonBytes journal.toJson).length = journalBytes journal := by
  have hnames : quotedBytes "schemaVersion" = 15 ∧ quotedBytes "transactionId" = 15 ∧
      quotedBytes "state" = 7 ∧ quotedBytes "checkpointId" = 14 ∧ quotedBytes "kind" = 6 ∧
      quotedBytes "operations" = 12 ∧ quotedBytes "directoriesToRemove" = 21 ∧
      quotedBytes "directoriesToCreate" = 21 ∧ quotedBytes "createdAtUtc" = 14 ∧
      quotedBytes "updatedAtUtc" = 14 ∧ utf8Length [] = 0 := by decide +kernel
  have hstate : utf8Length journal.state.toJson.compact = quotedBytes journal.state.text := by
    cases journal.state <;> rfl
  have hkind : utf8Length journal.kind.toJson.compact = quotedBytes journal.kind.text := by
    cases journal.kind <;> rfl
  have hoperations := utf8Length_arrayJson utf8Length_operation journal.operations
  have hpaths : ∀ paths : List TrackedUnityFilePath,
      utf8Length (JsonValue.array (paths.map fun path => .string path.text)).compact =
        arrayBytes (paths.map fun path => quotedBytes path.text) :=
    utf8Length_arrayJson fun _ => rfl
  have hlength : (jsonBytes journal.toJson).length = utf8Length journal.toJson.compact :=
    congrArg List.length (utf8_ofList _)
  have hversion : utf8Length (JsonValue.decimal journal.schemaVersion) =
      decimalBytes journal.schemaVersion := rfl
  rw [hlength, TransactionJournal.toJson]
  generalize JsonValue.array (journal.operations.map FileOperation.toJson) = operations
    at hoperations ⊢
  generalize hremove : JsonValue.array (journal.directoriesToRemove.map fun path =>
    .string path.text) = remove
  generalize hcreate : JsonValue.array (journal.directoriesToCreate.map fun path =>
    .string path.text) = create
  have hremoveLength := hpaths journal.directoriesToRemove
  have hcreateLength := hpaths journal.directoriesToCreate
  rw [hremove] at hremoveLength
  rw [hcreate] at hcreateLength
  simp only [JsonValue.compact, JsonValue.compactMembers, utf8Length_cons, utf8Length_append,
    utf8Length_string, hnames, hstate, hkind, hoperations, hremoveLength, hcreateLength,
    hversion, length_punctuation, utf8Length_toHex]
  rw [journalBytes]
  clear hnames hstate hkind hoperations hpaths hlength hversion hremoveLength hcreateLength
    hremove hcreate
  omega

/-! Reading a journal back. -/

/-- What is read is what `serde_json` wrote: of the journal, and of its envelope. -/
structure JournalReader.Lawful (reader : JournalReader) : Prop where
  schemaVersion_toVec : ∀ journal : TransactionJournal, journal.Representable →
    reader.schemaVersion (jsonBytes journal.toJson) = .ok journal.schemaVersion
  journal_toVec : ∀ journal : TransactionJournal, journal.Representable →
    reader.journal (jsonBytes journal.toJson) = .ok journal

variable {reader : JournalReader}

theorem readTransactionJournal_toVec_iff (hreader : reader.Lawful) (path : String)
    {journal : TransactionJournal} (hfits : journal.Representable)
    (hversion : journal.schemaVersion = transactionJournalSchemaVersion) :
    readTransactionJournal reader path (jsonBytes journal.toJson) = .ok journal ↔
      journalBytes journal ≤ maxTransactionJournalBytes := by
  rw [← length_journal]
  constructor
  · intro hread
    by_contra hlong
    simp only [readTransactionJournal, readBytesBounded, if_pos (not_le.mp hlong),
      except_bind_error] at hread
    cases hread
  · intro hshort
    simp only [readTransactionJournal, readBytesBounded, if_neg (not_lt.mpr hshort),
      except_bind_ok, hreader.schemaVersion_toVec journal hfits,
      hreader.journal_toVec journal hfits, jsonResult, hversion, ne_eq, not_true_eq_false,
      if_false]

/-- A journal beyond the limit is an error of the listing, not a pending transaction. -/
theorem readTransactionJournal_long (reader : JournalReader) (path : String)
    {journal : TransactionJournal} (hlong : maxTransactionJournalBytes < journalBytes journal) :
    readTransactionJournal reader path (jsonBytes journal.toJson) = .error (.corruption
      s!"anchored file exceeds maximum size of {maxTransactionJournalBytes} bytes: {path}") := by
  rw [← length_journal] at hlong
  rw [readTransactionJournal, readBytesBounded, if_pos hlong]
  rfl

/-- The directory of a transaction after its journal was written. -/
def transactionEntry (journal : TransactionJournal) : String × TransactionEntry :=
  (journal.transactionId, .directory (some (.file (jsonBytes journal.toJson))))

def pendingOf (transactions : String) (journal : TransactionJournal) : PendingTransaction :=
  ⟨journal.transactionId, journal.state.debugName,
    s!"{transactions}/{journal.transactionId}/journal.json"⟩

theorem pendingTransaction_entry (hreader : reader.Lawful) (transactions : String)
    {journal : TransactionJournal} (hfits : journal.Representable)
    (hversion : journal.schemaVersion = transactionJournalSchemaVersion)
    (hshort : journalBytes journal ≤ maxTransactionJournalBytes) :
    pendingTransaction reader transactions (transactionEntry journal).1
        (transactionEntry journal).2 =
      .ok (if journal.state.isTerminal = true then none
        else some (pendingOf transactions journal)) := by
  have hread := (readTransactionJournal_toVec_iff hreader
    s!"{transactions}/{journal.transactionId}/journal.json" hfits hversion).mpr hshort
  simp only [pendingTransaction, transactionEntry, hread]
  split
  · rfl
  · rfl

theorem reduceOption_ite {α β : Type} (keep : α → Bool) (value : α → β) (items : List α) :
    (items.map fun item => if keep item = true then none else some (value item)).reduceOption =
      (items.filter fun item => !keep item).map value := by
  induction items with
  | nil => rfl
  | cons item items ih =>
      cases hkeep : keep item
      · rw [List.map_cons, hkeep, if_neg Bool.false_ne_true, List.reduceOption_cons_of_some, ih,
          List.filter_cons_of_pos (by simp [hkeep]), List.map_cons]
      · rw [List.map_cons, hkeep, if_pos rfl, List.reduceOption_cons_of_none, ih,
          List.filter_cons_of_neg (by simp [hkeep])]

/-- The listing of transactions whose journals were written by apply or recovery. -/
theorem pendingTransactions_written (hreader : reader.Lawful) (transactions : String)
    {journals : List TransactionJournal}
    (hfits : ∀ journal ∈ journals, journal.Representable)
    (hversion : ∀ journal ∈ journals, journal.schemaVersion = transactionJournalSchemaVersion)
    (hshort : ∀ journal ∈ journals, journalBytes journal ≤ maxTransactionJournalBytes) :
    pendingTransactionsForProject reader transactions (.ok ())
        (some (journals.map transactionEntry)) =
      .ok ((journals.filter fun journal => !journal.state.isTerminal).map
        (pendingOf transactions)) := by
  have hentries : (journals.map transactionEntry).mapM (fun entry =>
      pendingTransaction reader transactions entry.1 entry.2) =
        .ok (journals.map fun journal => if journal.state.isTerminal = true then none
          else some (pendingOf transactions journal)) := by
    rw [mapM_eq_ok_iff, List.forall₂_map_left_iff, List.forall₂_map_right_iff, List.forall₂_same]
    intro journal hjournal
    exact pendingTransaction_entry hreader transactions (hfits journal hjournal)
      (hversion journal hjournal) (hshort journal hjournal)
  rw [← reduceOption_ite, pendingTransactionsForProject, except_bind_ok, hentries, except_bind_ok]
  rfl

/-! Journals of applied plans. -/

section Written

variable (canonicalUtc : Timestamp → String) (blake3 : Bytes → Digest32)

/-- A journal that apply or recovery wrote, for a plan that apply accepted in some state of
the project and the repository. -/
def WrittenJournal (journal : TransactionJournal) : Prop :=
  ∃ tree load authorizationOf guards plan transactionId nowUtc begun,
    -- the sizes of a plan are `u64`s
    (∀ operation ∈ plan.operations, operation.Representable) ∧
    beginApply canonicalUtc blake3 tree load authorizationOf guards true plan transactionId
      nowUtc = .ok (some begun) ∧ journal.Rewrites begun

variable {canonicalUtc blake3} {reader : JournalReader}

theorem WrittenJournal.schemaVersion_eq {journal : TransactionJournal}
    (h : WrittenJournal canonicalUtc blake3 journal) :
    journal.schemaVersion = transactionJournalSchemaVersion := by
  rcases h with ⟨tree, load, authorizationOf, guards, plan, transactionId, nowUtc, begun, -, hbegin,
    state, updatedAtUtc, rfl⟩
  rcases beginApply_eq_some.mp hbegin with ⟨-, -, -, -, -, -, -, rfl⟩
  rfl

theorem WrittenJournal.representable {journal : TransactionJournal}
    (h : WrittenJournal canonicalUtc blake3 journal) : journal.Representable := by
  refine ⟨?_, ?_⟩
  · rw [h.schemaVersion_eq]
    decide
  · rcases h with ⟨tree, load, authorizationOf, guards, plan, transactionId, nowUtc, begun, hsizes,
      hbegin, state, updatedAtUtc, rfl⟩
    rcases beginApply_eq_some.mp hbegin with ⟨-, -, -, -, -, -, -, rfl⟩
    exact hsizes

/-- The journals that apply and recovery wrote read back as they were written, and the
listing knows which of them are pending, exactly when each takes at most 512 MiB. -/
theorem writtenJournals_readBack_iff (hreader : reader.Lawful) (transactions : String)
    {journals : List TransactionJournal}
    (hwritten : ∀ journal ∈ journals, WrittenJournal canonicalUtc blake3 journal) :
    ((∀ journal ∈ journals, readTransactionJournal reader
        s!"{transactions}/{journal.transactionId}/journal.json" (jsonBytes journal.toJson) =
          .ok journal) ∧
      pendingTransactionsForProject reader transactions (.ok ())
          (some (journals.map transactionEntry)) =
        .ok ((journals.filter fun journal => !journal.state.isTerminal).map
          (pendingOf transactions))) ↔
      ∀ journal ∈ journals, journalBytes journal ≤ maxTransactionJournalBytes := by
  have hversion : ∀ journal ∈ journals,
      journal.schemaVersion = transactionJournalSchemaVersion :=
    fun journal hjournal => (hwritten journal hjournal).schemaVersion_eq
  have hfits : ∀ journal ∈ journals, journal.Representable :=
    fun journal hjournal => (hwritten journal hjournal).representable
  constructor
  · rintro ⟨hread, -⟩ journal hjournal
    exact (readTransactionJournal_toVec_iff hreader _ (hfits journal hjournal)
      (hversion journal hjournal)).mp (hread journal hjournal)
  · intro hshort
    refine ⟨fun journal hjournal => ?_, pendingTransactions_written hreader transactions hfits
      hversion hshort⟩
    exact (readTransactionJournal_toVec_iff hreader _ (hfits journal hjournal)
      (hversion journal hjournal)).mpr (hshort journal hjournal)

end Written

end CheckPo
