/-
Which transactions of a project are pending, and the steps of applying a plan up to the
first write of its journal.
-/
import CheckPo.TransactionJournal

namespace CheckPo

/-- What stands at an entry of the transactions directory; of a directory, what stands at
its journal. -/
inductive TransactionEntry where
  | link
  | notDirectory
  | directory (journal : Option (TreeEntry Bytes))

structure PendingTransaction where
  transactionId : String
  state : String
  journalPath : String
deriving DecidableEq

namespace JournalState

/-- `journal_state_is_terminal`. -/
def isTerminal : JournalState → Bool
  | .committed | .recovered => true
  | _ => false

def debugName : JournalState → String
  | .created => "Created"
  | .staged => "Staged"
  | .applying => "Applying"
  | .committed => "Committed"
  | .recovered => "Recovered"

end JournalState

section Pending

variable (reader : JournalReader) (transactions : String)

/-- An entry of the transactions directory, as far as it is pending. -/
def pendingTransaction (name : String) (entry : TransactionEntry) :
    CheckPoResult (Option PendingTransaction) :=
  let journalPath := s!"{transactions}/{name}/journal.json"
  match entry with
  | .link => .error (.corruption
      s!"transaction directory is a symbolic link or reparse point: {transactions}/{name}")
  | .notDirectory => .ok none
  | .directory (some (.file bytes)) =>
      match readTransactionJournal reader journalPath bytes with
      | .ok journal =>
          if journal.state.isTerminal = true then .ok none
          else .ok (some ⟨journal.transactionId, journal.state.debugName, journalPath⟩)
      | .error (.unsupportedFormat _ found _) =>
          .ok (some ⟨name, s!"unsupportedSchema:{found}", journalPath⟩)
      | .error (.json _ _) => .ok (some ⟨name, "unreadable", journalPath⟩)
      | .error error => .error error
  | .directory _ => .ok (some ⟨name, "unknown", journalPath⟩)

/-- `pending_transactions_for_project`, in the order in which the directory lists its
entries. -/
def pendingTransactionsForProject (layout : CheckPoResult Unit)
    (entries : Option (List (String × TransactionEntry))) :
    CheckPoResult (List PendingTransaction) := do
  layout
  match entries with
  | none => return []
  | some entries =>
      let found ← entries.mapM fun entry => pendingTransaction reader transactions entry.1 entry.2
      return found.reduceOption

end Pending

/-! The journal of an applied plan. -/

section Apply

variable (canonicalUtc : Timestamp → String) (blake3 : Bytes → Digest32) (tree : WorkingTree)
variable (load : SnapshotId → CheckPoResult SnapshotFile)
variable (authorizationOf : OperationPlan → CheckPoResult String)

/-- What else an apply asks before it begins: that the project may be changed where it is,
that there is nothing pending, that no quarantine is unresolved, and that the volume has
room. -/
structure ApplyGuards where
  location : CheckPoResult Unit
  pending : CheckPoResult Unit
  quarantines : CheckPoResult Unit
  capacity : OperationPlan → CheckPoResult Unit

/-- The journal of a transaction that begins. -/
def OperationPlan.journal (plan : OperationPlan) (transactionId nowUtc : String) :
    TransactionJournal where
  schemaVersion := transactionJournalSchemaVersion
  transactionId := transactionId
  state := .created
  checkpointId := plan.checkpointId
  kind := plan.kind
  operations := plan.operations
  directoriesToRemove := plan.directoriesToRemove
  directoriesToCreate := plan.directoriesToCreate
  createdAtUtc := nowUtc
  updatedAtUtc := nowUtc

/-- `apply_plan_once` up to the first write of the journal; no journal for a plan without
changes. -/
def beginApply (guards : ApplyGuards) (yes : Bool) (plan : OperationPlan)
    (transactionId nowUtc : String) : CheckPoResult (Option TransactionJournal) := do
  if yes = false then .error (.user "apply requires --yes.")
  else
    guards.location
    guards.pending
    (if plan.kind = .restore then .ok () else guards.quarantines)
    let warnings := "; ".intercalate plan.warnings
    if plan.warnings ≠ [] then
      .error (.user s!"operation cannot be applied while scan warnings exist: {warnings}")
    else
      validateExpectedPlan canonicalUtc blake3 tree load authorizationOf plan
      if plan.hasChanges = false then return none
      else
        guards.capacity plan
        return some (plan.journal transactionId nowUtc)

variable {canonicalUtc blake3 tree load authorizationOf}

theorem beginApply_eq_some {guards : ApplyGuards} {plan : OperationPlan}
    {transactionId nowUtc : String} {begun : TransactionJournal} :
    beginApply canonicalUtc blake3 tree load authorizationOf guards true plan transactionId
        nowUtc = .ok (some begun) ↔
      guards.location = .ok () ∧ guards.pending = .ok () ∧
        (plan.kind ≠ .restore → guards.quarantines = .ok ()) ∧ plan.warnings = [] ∧
        validateExpectedPlan canonicalUtc blake3 tree load authorizationOf plan = .ok () ∧
        plan.hasChanges = true ∧ guards.capacity plan = .ok () ∧
        plan.journal transactionId nowUtc = begun := by
  have hquarantines : (if plan.kind = .restore then .ok () else guards.quarantines) = .ok () ↔
      (plan.kind ≠ .restore → guards.quarantines = .ok ()) := by
    by_cases hkind : plan.kind = .restore
    · simp [hkind]
    · simp [hkind]
  cases hchanges : plan.hasChanges
  · simp [beginApply, hchanges]
  · simp only [beginApply, hchanges, Bool.true_eq_false, if_false, except_bind_eq_ok,
      except_guard_eq_ok, except_pure_eq_ok, not_not, Option.some.injEq, exists_const,
      hquarantines]
    constructor
    · rintro ⟨⟨⟩, hlocation, ⟨⟩, hpending, hkind, hwarnings, ⟨⟩, hvalid, ⟨⟩, hcapacity, hbegun⟩
      exact ⟨hlocation, hpending, hkind, hwarnings, hvalid, trivial, hcapacity, hbegun⟩
    · rintro ⟨hlocation, hpending, hkind, hwarnings, hvalid, -, hcapacity, hbegun⟩
      exact ⟨⟨⟩, hlocation, ⟨⟩, hpending, hkind, hwarnings, ⟨⟩, hvalid, ⟨⟩, hcapacity, hbegun⟩

end Apply

/-- Apply and recovery write the journal that apply began, with another state and the time
of the change. -/
def TransactionJournal.Rewrites (journal begun : TransactionJournal) : Prop :=
  ∃ state updatedAtUtc, journal = { begun with state := state, updatedAtUtc := updatedAtUtc }

end CheckPo
