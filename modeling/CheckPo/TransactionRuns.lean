/-
Transactions over whole runs: the plan is applied and recovered in any order, each invocation
with its own clock, random names and volumes, and each may stop after any of its writes.  What
the journal says is what holds of the project.
-/
import CheckPo.CheckpointDiff
import CheckPo.PlanFitting
import CheckPo.TransactionRecovered

namespace CheckPo

section Promises

variable (context : TransactionContext) (plan : OperationPlan) (before : ProjectFiles)

/-- What the state of a journal promises of the project. -/
def JournalState.Promises (state : JournalState) (current : ProjectFiles)
    (payload : RepositoryFiles) : Prop :=
  match state with
  | .created | .staged | .recovered => Between context plan before False current payload
  | .applying => Between context plan before True current payload
  | .committed => Applied context plan before current payload

/-- What holds of the project: without a journal it is as it was. -/
def Promised (transactionId : String) (workspace : Workspace) : Prop :=
  match workspace.journal with
  | none => workspace.project = before
  | some journal => PlanFits context plan before ∧
      (∃ nowUtc, journal.Rewrites (plan.journal transactionId nowUtc)) ∧
      journal.state.Promises context plan before workspace.project workspace.payload

end Promises

section Steps

variable {context : TransactionContext} {plan : OperationPlan} {before : ProjectFiles}
variable {applied : Prop} {journal : TransactionJournal} {workspace after : Workspace}
variable {transactionId nowUtc : String} {payload : RepositoryFiles}

theorem between_refl : Between context plan before applied before payload :=
  fun _ _ => .same rfl

/-- Where nothing is applied, the backups do not matter. -/
theorem Between.payload_free {current : ProjectFiles} {other : RepositoryFiles}
    (h : Between context plan before False current payload) :
    Between context plan before False current other := by
  intro path hown
  have hstands := h path hown
  generalize current.entry path = now at hstands ⊢
  cases hstands with
  | same h => exact .same h
  | implied hbefore habove hnot => exact .implied hbefore habove hnot
  | retimed happlied => exact happlied.elim
  | gone happlied => exact happlied.elim
  | came happlied => exact happlied.elim
  | made happlied => exact happlied.elim

theorem TransactionJournal.Rewrites.advance {begun : TransactionJournal} (h : journal.Rewrites begun)
    (state : JournalState) (updatedAtUtc : String) :
    { journal with state := state, updatedAtUtc := updatedAtUtc }.Rewrites begun := by
  rcases h with ⟨earlier, time, rfl⟩
  exact ⟨state, updatedAtUtc, rfl⟩

/-- However a path stands, the content that was there is there or in the backup. -/
theorem Standing.content {path : Path} {now : Option (TreeEntry ProjectFile)} {file : ProjectFile}
    (hfile : before.entry path = some (.file file))
    (h : Standing context plan before applied payload path now) :
    (∃ found, now = some (.file found) ∧ found.content = file.content) ∨
      applied ∧ payload.entry ("backup" :: path) = some (.file file.content) := by
  cases h with
  | same h =>
      left
      rw [hfile] at h
      rcases now with _ | ⟨found | _ | _ | _⟩ <;>
        simp only [Option.map_some, Option.map_none, seen, reduceCtorEq, Option.some.injEq,
          TreeEntry.file.injEq, Prod.mk.injEq] at h
      exact ⟨found, rfl, h.1⟩
  | implied hbefore =>
      rw [hfile] at hbefore
      cases hbefore
  | @retimed _ _ found modified _ _ _ hbefore =>
      rw [hfile, Option.some.injEq, TreeEntry.file.injEq] at hbefore
      exact Or.inl ⟨⟨found.content, modified⟩, rfl, by rw [hbefore]⟩
  | gone happlied _ hkept => exact Or.inr ⟨happlied, hkept file hfile⟩
  | came happlied _ _ _ hkept _ => exact Or.inr ⟨happlied, hkept file hfile⟩
  | made happlied _ hkept _ => exact Or.inr ⟨happlied, hkept file hfile⟩

/-- What a promise says of one file. -/
theorem Promised.content {path : Path} {file : ProjectFile} (hown : ¬ ToolPath path)
    (hfile : before.entry path = some (.file file))
    (h : Promised context plan before transactionId workspace) :
    (∃ found, workspace.project.entry path = some (.file found) ∧ found.content = file.content) ∨
      ∃ journal, workspace.journal = some journal ∧
        (journal.state = .applying ∨ journal.state = .committed) ∧
        workspace.payload.entry ("backup" :: path) = some (.file file.content) := by
  rcases hjournal : workspace.journal with _ | journal
  · rw [Promised, hjournal] at h
    exact Or.inl ⟨file, by rw [h, hfile], rfl⟩
  rw [Promised, hjournal] at h
  have hpromise := h.2.2
  cases hstate : journal.state with
  | created =>
      rw [hstate] at hpromise
      exact Or.inl (((hpromise path hown).content hfile).resolve_right fun hno => hno.1)
  | staged =>
      rw [hstate] at hpromise
      exact Or.inl (((hpromise path hown).content hfile).resolve_right fun hno => hno.1)
  | recovered =>
      rw [hstate] at hpromise
      exact Or.inl (((hpromise path hown).content hfile).resolve_right fun hno => hno.1)
  | applying =>
      rw [hstate] at hpromise
      rcases (hpromise path hown).content hfile with hhere | ⟨-, hbackup⟩
      · exact Or.inl hhere
      · exact Or.inr ⟨journal, rfl, Or.inl hstate, hbackup⟩
  | committed =>
      rw [hstate] at hpromise
      rcases (hpromise.between path hown).content hfile with hhere | ⟨-, hbackup⟩
      · exact Or.inl hhere
      · exact Or.inr ⟨journal, rfl, Or.inr hstate, hbackup⟩

/-! What the phases of a transaction promise. -/

/-- While nothing is final, what is known of the project is what the journal promises. -/
theorem Undergoing.promised (hfits : PlanFits context plan before)
    (hbegun : journal.Rewrites (plan.journal transactionId nowUtc))
    (hopen : journal.state.isTerminal = false) (happlied : applied → journal.state = .applying)
    (h : Undergoing context plan before applied journal workspace) :
    Promised context plan before transactionId workspace := by
  rw [Promised, h.journal]
  refine ⟨hfits, ⟨nowUtc, hbegun⟩, ?_⟩
  have hmono {later : Prop} (himplies : applied → later) :
      Between context plan before later workspace.project workspace.payload :=
    fun path hown => (h.between path hown).mono (.refl _) himplies
  cases hstate : journal.state with
  | created => exact hmono fun happly => by rw [happlied happly] at hstate; cases hstate
  | staged => exact hmono fun happly => by rw [happlied happly] at hstate; cases hstate
  | applying => exact hmono fun _ => trivial
  | committed =>
      rw [hstate] at hopen
      cases hopen
  | recovered =>
      rw [hstate] at hopen
      cases hopen

/-- Before anything is applied the project is untouched. -/
structure Preparing (plan : OperationPlan) (before : ProjectFiles) (transactionId : String)
    (workspace : Workspace) : Prop where
  project : workspace.project = before
  journal : ∃ journal nowUtc, workspace.journal = some journal ∧
    journal.Rewrites (plan.journal transactionId nowUtc) ∧ journal.state ≠ .committed

theorem Preparing.promised (hfits : PlanFits context plan before)
    (h : Preparing plan before transactionId workspace) :
    Promised context plan before transactionId workspace := by
  rcases h.journal with ⟨journal, nowUtc, hjournal, hbegun, hnot⟩
  rw [Promised, hjournal]
  refine ⟨hfits, ⟨nowUtc, hbegun⟩, ?_⟩
  rw [h.project]
  cases hstate : journal.state with
  | created => exact between_refl
  | staged => exact between_refl
  | applying => exact between_refl
  | committed => exact absurd hstate hnot
  | recovered => exact between_refl

/-! Steps that leave the project and the journal alone. -/

structure LeavesAlone (workspace after : Workspace) : Prop where
  project : after.project = workspace.project
  journal : after.journal = workspace.journal

instance preorderLeavesAlone : IsPreorder Workspace LeavesAlone where
  refl _ := ⟨rfl, rfl⟩
  trans _ _ _ hfirst hrest :=
    ⟨hrest.project.trans hfirst.project, hrest.journal.trans hfirst.journal⟩

theorem PayloadOnly.leavesAlone (h : PayloadOnly workspace after) : LeavesAlone workspace after :=
  ⟨h.project, h.journal⟩

theorem removeRepositoryTreeIfExists_leavesAlone {path : Path} :
    WritesAlong LeavesAlone (removeRepositoryTreeIfExists context path) := by
  refine .bind .inspect fun missing => .ite .pure ?_
  have hany : WritesAlong (fun _ _ : RepositoryFiles => True) (removeRepoTreeAnchored
      context.transactionRoot context.payloadUuid context.order path) :=
    fun _ _ _ => trivial
  exact .zoom hany fun _ _ _ => ⟨rfl, rfl⟩

theorem Promised.leavesAlone (h : Promised context plan before transactionId workspace)
    (hjournal : workspace.journal = none) (hafter : LeavesAlone workspace after) :
    Promised context plan before transactionId after := by
  rw [Promised, hjournal] at h
  rw [Promised, hafter.journal, hjournal]
  exact hafter.project.trans h

theorem Undergoing.leavesAlone (h : Undergoing context plan before False journal workspace)
    (hafter : LeavesAlone workspace after) :
    Undergoing context plan before False journal after where
  journal := hafter.journal.trans h.journal
  between := by
    rw [hafter.project]
    exact h.between.payload_free

/-- The journal is written with another state. -/
theorem advanceJournal_guarded {inv pre : Workspace → Prop}
    {post : TransactionJournal → Workspace → Prop} {state : JournalState}
    (h : ∀ workspace updatedAtUtc, inv workspace → pre workspace →
      inv { workspace with
        journal := some { journal with state := state, updatedAtUtc := updatedAtUtc } } ∧
      post { journal with state := state, updatedAtUtc := updatedAtUtc } { workspace with
        journal := some { journal with state := state, updatedAtUtc := updatedAtUtc } }) :
    Guarded inv pre (advanceJournal context journal state) post := by
  refine .bind (m := fun _ => pre) (.inspect fun _ _ _ _ hpre => hpre) fun updatedAtUtc => ?_
  refine .bind (m := fun _ => post { journal with state := state, updatedAtUtc := updatedAtUtc })
    (.write fun workspace hinv hpre => h workspace updatedAtUtc hinv hpre) fun _ => ?_
  exact .pure fun _ _ hpost => hpost

/-! Applying. -/

section Apply

variable {snapshot : SnapshotFile} {parallelism : Nat}

theorem Preparing.payloadOnly (h : Preparing plan before transactionId workspace)
    (hafter : PayloadOnly workspace after) : Preparing plan before transactionId after where
  project := hafter.project.trans h.project
  journal := by
    rw [hafter.journal]
    exact h.journal

/-- Up to the journal that says so nothing is applied. -/
theorem prepareTransaction_guarded (hbegun : journal.Rewrites (plan.journal transactionId nowUtc)) :
    Guarded (Preparing plan before transactionId) (fun _ => True)
      (prepareTransaction context parallelism plan journal) fun applying workspace =>
        workspace.journal = some applying ∧ applying.state = .applying ∧
          applying.Rewrites (plan.journal transactionId nowUtc) := by
  have hpayload {α : Type} {program : TransactionM α} (h : WritesAlong PayloadOnly program) :
      Guarded (Preparing plan before transactionId) (fun _ => True) program fun _ _ => True :=
    h.guarded (fun _ _ hstate _ hafter => hstate.payloadOnly hafter) fun _ _ _ _ _ _ => trivial
  refine .lift_bind fun snapshot _ => .bind (hpayload
    (.forM fun _ _ => createPayloadParent_payloadOnly)) fun _ => .bind (hpayload
    (.forM fun group _ => .bind (stageGroup_payloadOnly group) fun _ => .forM fun _ _ => .lift))
    fun _ => ?_
  refine .bind (m := fun staged _ => staged.Rewrites (plan.journal transactionId nowUtc))
    (advanceJournal_guarded fun workspace updatedAtUtc hstate _ => ?_) fun staged => ?_
  · have hstaged := hbegun.advance .staged updatedAtUtc
    exact ⟨⟨hstate.project, _, nowUtc, rfl, hstaged, by simp⟩, hstaged⟩
  refine .bind (m := fun _ _ => staged.Rewrites (plan.journal transactionId nowUtc))
    (.inspect fun _ _ _ _ h => h) fun _ => advanceJournal_guarded ?_
  intro workspace updatedAtUtc hstate hstaged
  have happlying := hstaged.advance .applying updatedAtUtc
  exact ⟨⟨hstate.project, _, nowUtc, rfl, happlying, by simp⟩, rfl, rfl, happlying⟩

theorem validOperations_of_validatePlanShape
    {load : SnapshotId → CheckPoResult SnapshotFile} (h : validatePlanShape load plan = .ok ()) :
    validateJournalOperations load plan.checkpointId plan.operations = .ok () := by
  simp only [validatePlanShape, except_guard_eq_ok, except_bind_eq_ok] at h
  rcases h with ⟨-, -, -, staged, -, backup, -, -, -, -, _, -, _, hvalid, -⟩
  exact hvalid

/-- The operations of a plan that fits, and the journal that says that they are done. -/
theorem applyOperations_promised (hfits : PlanFits context plan before)
    (hplain : ∀ files path attempt, PlainName (context.projectUuid files path attempt))
    (happlying : journal.state = .applying)
    (hbegun : journal.Rewrites (plan.journal transactionId nowUtc)) :
    Guarded (Promised context plan before transactionId)
      (fun workspace => workspace.project = before ∧ workspace.journal = some journal)
      (do
        let remaining ← applyOperations context plan transactionId
        let _ ← advanceJournal context journal .committed
        match ← Durable.attempt (remaining.forM (cleanupStagedSource context)) with
        | .ok () => return ⟨plan, true, some transactionId, []⟩
        | .error error => return ⟨plan, true, some transactionId,
            [s!"restore was committed, but private staged payload cleanup remains pending: {error.message}"]⟩ :
        TransactionM ApplyResult) fun _ _ => True := by
  have hoperations : Guarded (Promised context plan before transactionId)
      (fun workspace => workspace.project = before ∧ workspace.journal = some journal)
      (applyOperations context plan transactionId) fun _ workspace =>
        Applied context plan before workspace.project workspace.payload := by
    have hcarried : Guarded (Undergoing context plan before True journal)
        (fun workspace => workspace.project = before)
        (applyOperations context plan transactionId) fun _ workspace =>
          ∀ operation ∈ plan.operations,
            AfterOperation context operation (workspace.project.entry operation.path.segments) :=
      applyOperations_guarded hfits hplain
    apply hcarried.of_invariant
    · rintro workspace - ⟨hproject, hjournal⟩
      refine ⟨⟨hjournal, ?_⟩, hproject⟩
      rw [hproject]
      exact between_refl
    · exact fun workspace hstate =>
        hstate.promised hfits hbegun (by rw [happlying]; rfl) fun _ => happlying
    · exact fun _ workspace hstate hdone => ⟨hstate.between, hdone⟩
  refine .bind hoperations fun remaining => ?_
  refine .bind (m := fun _ workspace => ∃ committed : TransactionJournal,
    workspace.journal = some committed ∧ committed.state = .committed)
    (advanceJournal_guarded fun workspace updatedAtUtc _ happlied => ?_) fun _ => ?_
  · exact ⟨⟨hfits, ⟨nowUtc, hbegun.advance .committed updatedAtUtc⟩, happlied⟩, _, rfl, rfl⟩
  have hcleanup : WritesAlong PayloadOnly (remaining.forM (cleanupStagedSource context)) :=
    .forM fun _ _ => cleanupStagedSource_payloadOnly
  refine .bind (m := fun _ _ => True) ?_ fun result => ?_
  · refine hcleanup.attempt.guarded ?_ fun _ _ _ _ _ _ => trivial
    rintro workspace after hstate ⟨committed, hjournal, hcommitted⟩ hafter
    rw [Promised, hjournal] at hstate
    rcases hstate with ⟨-, hrewrites, hpromise⟩
    rw [Promised, hafter.journal, hjournal]
    refine ⟨hfits, hrewrites, ?_⟩
    rw [hcommitted] at hpromise ⊢
    refine ⟨fun path hown => ?_, fun operation hmem => ?_⟩
    · rw [hafter.project]
      exact (hpromise.between path hown).mono hafter.backups id
    · rw [hafter.project]
      exact hpromise.operations operation hmem
  · rcases result with error | ⟨⟨⟩⟩
    · exact .pure fun _ _ h => h
    · exact .pure fun _ _ h => h

variable {authorizationOf : OperationPlan → CheckPoResult String}
  {ensureCapacity : OperationPlan → CheckPoResult Unit} {options : ApplyOptions}

/-- Applying a plan that was built for the project. -/
theorem applyPlanOnce_guarded
    (hplain : ∀ files path attempt, PlainName (context.projectUuid files path attempt))
    (hfits : recheckPreconditions context.canonicalUtc context.blake3 (before.seenBy context)
        plan = .ok () →
      validateJournalOperations context.load plan.checkpointId plan.operations = .ok () →
      PlanFits context plan before) :
    Guarded (Promised context plan before transactionId) (fun workspace => workspace.journal = none)
      (applyPlanOnce context authorizationOf ensureCapacity options plan transactionId)
      fun _ _ => True := by
  have hbefore : ∀ {workspace}, Promised context plan before transactionId workspace →
      workspace.journal = none → workspace.project = before := by
    intro workspace hstate hjournal
    rw [Promised, hjournal] at hstate
    exact hstate
  refine .ite (fun _ => .fail) fun _ => .ite (fun _ => .fail) fun _ => ?_
  refine .inspect_fact (fun _ => PlanFits context plan before) ?_ fun _ hfits => ?_
  · intro _ workspace hstate hjournal hvalid
    rw [Workspace.workingTree, hbefore hstate hjournal] at hvalid
    simp only [validateExpectedPlan, except_bind_eq_ok] at hvalid
    rcases hvalid with ⟨_, hshape, _, -, hrecheck⟩
    exact hfits hrecheck (validOperations_of_validatePlanShape hshape)
  refine .ite (fun _ => .pure fun _ _ _ => trivial) fun _ => .lift_bind fun _ _ => ?_
  have hdirectory (path : Path) :
      Guarded (Promised context plan before transactionId) (fun workspace => workspace.journal = none)
        (createTransactionDirectory context path) fun _ workspace => workspace.journal = none :=
    createTransactionDirectory_payloadOnly.guarded
      (fun _ _ hstate hjournal hafter => hstate.leavesAlone hjournal hafter.leavesAlone)
      fun _ _ _ _ hjournal hafter => hafter.journal.trans hjournal
  refine .bind (hdirectory _) fun _ => .bind (hdirectory _) fun _ => ?_
  refine .bind (m := fun _ workspace => workspace.journal = none) (.inspect fun _ _ _ _ h => h)
    fun now => ?_
  have hcreated : (plan.journal transactionId now).Rewrites (plan.journal transactionId now) :=
    ⟨.created, now, rfl⟩
  refine .bind (m := fun _ => Preparing plan before transactionId) (.write ?_) fun _ => ?_
  · intro workspace hstate hjournal
    have hproject := hbefore hstate hjournal
    have hpreparing : Preparing plan before transactionId
        { workspace with journal := some (plan.journal transactionId now) } :=
      ⟨hproject, _, now, rfl, hcreated, by simp [OperationPlan.journal]⟩
    exact ⟨hpreparing.promised hfits, hpreparing⟩
  have hprepare : Guarded (Promised context plan before transactionId)
      (Preparing plan before transactionId)
      (Durable.attempt (prepareTransaction context options.stageParallelism plan
        (plan.journal transactionId now)))
      fun result workspace => Preparing plan before transactionId workspace ∧
        ∀ applying, result = .ok applying → workspace.journal = some applying ∧
          applying.state = .applying ∧ applying.Rewrites (plan.journal transactionId now) :=
    (prepareTransaction_guarded hcreated).attempt_ok.of_invariant
      (fun _ _ hstate => ⟨hstate, trivial⟩) (fun _ hstate => hstate.promised hfits)
      fun _ _ hstate hresult => ⟨hstate, hresult⟩
  refine .bind hprepare ?_
  rintro (error | applying)
  · refine .bind (m := fun recovered workspace => workspace.project = before ∧
      workspace.journal = some recovered ∧ recovered.state = .recovered ∧
      recovered.Rewrites (plan.journal transactionId now))
      (advanceJournal_guarded fun workspace updatedAtUtc _ hpre => ?_) fun recovered => ?_
    · have hrecovered := hcreated.advance .recovered updatedAtUtc
      have hafter : Preparing plan before transactionId { workspace with
          journal := some { plan.journal transactionId now with
            state := .recovered, updatedAtUtc := updatedAtUtc } } :=
        ⟨hpre.1.project, _, now, rfl, hrecovered, by simp⟩
      exact ⟨hafter.promised hfits, hpre.1.project, rfl, rfl, hrecovered⟩
    · refine .bind (m := fun _ _ => True) ?_ fun _ => .fail
      refine removeRepositoryTreeIfExists_leavesAlone.attempt.guarded ?_ fun _ _ _ _ _ _ => trivial
      rintro workspace after - ⟨hproject, hjournal, hstate, hbegun⟩ hafter
      exact Preparing.promised hfits ⟨hafter.project.trans hproject, recovered, now,
        hafter.journal.trans hjournal, hbegun, by rw [hstate]; simp⟩
  · intro workspace hworkspace
    rcases hworkspace.2.2 applying rfl with ⟨hjournal, happlying, hbegun⟩
    exact applyOperations_promised hfits hplain happlying hbegun workspace
      ⟨hworkspace.1, hworkspace.2.1.project, hjournal⟩

end Apply

/-! Recovering. -/

/-- Without a rollback nothing was applied. -/
theorem not_applying_of_needsRollback {backups staged : Finset TrackedUnityFilePath}
    (h : workspace.transactionNeedsRollback context journal backups staged = .ok false) :
    journal.state ≠ .applying := by
  intro hstate
  rw [Workspace.transactionNeedsRollback, if_pos (Or.inl hstate)] at h
  cases h

/-- What is promised while nothing is final. -/
theorem undergoing_of_promises (hjournal : workspace.journal = some journal)
    (hopen : journal.state.isTerminal = false)
    (h : journal.state.Promises context plan before workspace.project workspace.payload) :
    Undergoing context plan before (journal.state = .applying) journal workspace where
  journal := hjournal
  between path hown := by
    cases hstate : journal.state with
    | created =>
        rw [hstate] at h
        exact (h path hown).mono (.refl _) False.elim
    | staged =>
        rw [hstate] at h
        exact (h path hown).mono (.refl _) False.elim
    | applying =>
        rw [hstate] at h
        exact (h path hown).mono (.refl _) fun _ => rfl
    | committed =>
        rw [hstate] at hopen
        cases hopen
    | recovered =>
        rw [hstate] at hopen
        cases hopen

/-- The transaction is recovered, and the journal says so. -/
theorem finishRecovery_guarded (hfits : PlanFits context plan before)
    (hbegun : journal.Rewrites (plan.journal transactionId nowUtc))
    (hopen : journal.state.isTerminal = false) :
    Guarded (Promised context plan before transactionId)
      (Undergoing context plan before False journal)
      (do
        removeRepositoryTreeIfExists context ["staged"]
        let _ ← advanceJournal context journal .recovered
        return () : TransactionM Unit) fun _ _ => True := by
  refine .bind (m := fun _ => Undergoing context plan before False journal) ?_ fun _ => ?_
  · refine removeRepositoryTreeIfExists_leavesAlone.guarded ?_
      fun _ _ _ _ hstate hafter => hstate.leavesAlone hafter
    exact fun workspace after _ hstate hafter =>
      (hstate.leavesAlone hafter).promised hfits hbegun hopen False.elim
  · refine .bind (m := fun _ _ => True) (advanceJournal_guarded fun workspace updatedAtUtc _ h => ?_)
      fun _ => .pure fun _ _ h => h
    exact ⟨⟨hfits, ⟨nowUtc, hbegun.advance .recovered updatedAtUtc⟩, h.between⟩, trivial⟩

variable {quarantineUnknownTransaction : String → TransactionM String} {directoryId : String}

/-- Recovering a transaction that is not final. -/
theorem recoverOne_guarded
    (hplain : ∀ files path attempt, PlainName (context.projectUuid files path attempt))
    (htimes : ∀ time parsed, context.parseRfc3339 (context.canonicalUtc time) = .ok parsed →
      context.canonicalUtc parsed = context.canonicalUtc time)
    (hquarantine : ∀ reason, WritesAlong LeavesAlone (quarantineUnknownTransaction reason)) :
    Guarded (Promised context plan before transactionId)
      (fun workspace => ∀ journal, workspace.journal = some journal →
        journal.state.isTerminal = false)
      (recoverOne context quarantineUnknownTransaction directoryId) fun _ _ => True := by
  apply Guarded.of_state
  intro start hstart hopen
  refine .inspect_fact (fun found => found = start.journal) ?_ fun found hfound => ?_
  · rintro found workspace - rfl hread
    exact (Except.ok.inj hread).symm
  subst hfound
  rcases hjournal : start.journal with _ | journal
  · refine .bind (m := fun _ _ => True) ?_ fun _ => .fail
    refine (hquarantine _).guarded ?_ fun _ _ _ _ _ _ => trivial
    rintro workspace after hstate rfl hafter
    exact hstate.leavesAlone hjournal hafter
  have hnot := hopen journal hjournal
  rw [Promised, hjournal] at hstart
  rcases hstart with ⟨hfits, ⟨nowUtc, hbegun⟩, hpromise⟩
  -- what keeps the project between its states keeps the promise of this journal
  have hkeeps {α : Type} {program : TransactionM α} {pre : Workspace → Prop}
      {post : α → Workspace → Prop} (h : Guarded
        (Undergoing context plan before (journal.state = .applying) journal) pre program post) :
      Guarded (Promised context plan before transactionId)
        (fun workspace => Undergoing context plan before (journal.state = .applying) journal
          workspace ∧ pre workspace) program
        fun value workspace => Undergoing context plan before (journal.state = .applying) journal
          workspace ∧ post value workspace :=
    h.of_invariant (fun _ _ hstate => hstate) (fun _ hstate => hstate.promised hfits hbegun hnot id)
      fun _ _ hstate hpost => ⟨hstate, hpost⟩
  refine Guarded.weaken (?_ : Guarded (Promised context plan before transactionId)
    (fun workspace => Undergoing context plan before (journal.state = .applying) journal workspace ∧
      True) _ _) ?_ fun _ _ _ hpost => hpost
  · refine .lift_bind fun _ _ => .ite (fun _ => .fail) fun _ => .lift_bind fun _ _ =>
      .lift_bind fun _ _ => ?_
    refine .bind (hkeeps (.inspect fun _ _ _ _ h => h)) fun backups =>
      .bind (hkeeps (.inspect fun _ _ _ _ h => h)) fun staged => ?_
    have hcleanup : WritesAlong OwnOnly ((journal.operations.filter FileOperation.isStaged).forM
        (cleanupMaterializationTemp context journal.transactionId)) :=
      .forM fun _ _ => cleanupMaterializationTemp_ownOnly hplain
    refine .bind (hkeeps (hcleanup.guarded (fun _ _ hstate _ hafter => hstate.ownOnly hafter)
      fun _ _ _ _ h _ => h)) fun _ => ?_
    refine .bind (m := fun needed workspace => Undergoing context plan before
      (journal.state = .applying) journal workspace ∧ (needed = false → journal.state ≠ .applying))
      (.inspect fun needed workspace hread _ hstate => ⟨hstate.1, ?_⟩) fun needed => ?_
    · rintro rfl
      exact not_applying_of_needsRollback hread
    refine .bind (m := fun _ => Undergoing context plan before False journal) ?_ fun _ =>
      finishRecovery_guarded hfits hbegun hnot
    refine .ite (fun _ => ?_) fun hneeded => .pure fun workspace _ hstate => ?_
    · exact (hkeeps (recoverTopologyTransaction_guarded hfits htimes hplain hbegun)).weaken
        (fun _ _ hstate => ⟨hstate.1, trivial⟩) fun _ _ _ hpost => hpost.2
    · rw [Bool.not_eq_true] at hneeded
      exact ⟨hstate.1.journal, fun path hown =>
        (hstate.1.between path hown).mono (.refl _) (hstate.2 hneeded)⟩
  · rintro workspace - rfl
    exact ⟨undergoing_of_promises hjournal hnot hpromise, trivial⟩

end Steps

/-! Runs. -/

/-- What differs from one invocation to the next: random names, clocks, the order of
listings, the loose objects and the volumes. -/
structure TransactionSurroundings where
  projectUuid : ProjectFiles → Path → Nat → String
  plain : ∀ files path attempt, PlainName (projectUuid files path attempt)
  payloadUuid : RepositoryFiles → Path → Nat → String
  clock : Workspace → Timestamp
  nowUtcString : Workspace → String
  order : LinearOrder String
  objects : ObjectId → Option Bytes
  volumes : VolumeRelation

def TransactionContext.within (context : TransactionContext)
    (surroundings : TransactionSurroundings) : TransactionContext :=
  { context with
    projectUuid := surroundings.projectUuid
    payloadUuid := surroundings.payloadUuid
    clock := surroundings.clock
    nowUtcString := surroundings.nowUtcString
    order := surroundings.order
    objects := surroundings.objects
    volumes := surroundings.volumes }

inductive TransactionCall where
  | apply (surroundings : TransactionSurroundings) (options : ApplyOptions)
  | recover (surroundings : TransactionSurroundings)

namespace TransactionCall

/-- A transaction is applied before it has a journal, and recovered until it is final. -/
def may : TransactionCall → Workspace → Prop
  | .apply _ _, workspace => workspace.journal = none
  | .recover _, workspace => ∀ journal, workspace.journal = some journal →
      journal.state.isTerminal = false

variable (context : TransactionContext) (plan : OperationPlan) (transactionId : String)
variable (authorizationOf : OperationPlan → CheckPoResult String)
variable (ensureCapacity : OperationPlan → CheckPoResult Unit)
variable (quarantineUnknownTransaction : String → TransactionM String)

def invoke : TransactionCall → TransactionM Unit
  | .apply surroundings options => do
      let _ ← applyPlanOnce (context.within surroundings) authorizationOf ensureCapacity options plan
        transactionId
      return ()
  | .recover surroundings =>
      recoverOne (context.within surroundings) quarantineUnknownTransaction transactionId

end TransactionCall

/-! Only what is seen of the project matters to what is promised. -/

structure SeesAlike (context other : TransactionContext) : Prop where
  canonicalUtc : other.canonicalUtc = context.canonicalUtc
  blake3 : other.blake3 = context.blake3

theorem SeesAlike.symm {context other : TransactionContext} (h : SeesAlike context other) :
    SeesAlike other context :=
  ⟨h.canonicalUtc.symm, h.blake3.symm⟩

section Alike

variable {context other : TransactionContext} {plan : OperationPlan} {before : ProjectFiles}
variable {current : ProjectFiles} {payload : RepositoryFiles} {transactionId : String}
variable (halike : SeesAlike context other)
include halike

theorem PlanFits.alike (h : PlanFits context plan before) : PlanFits other plan before where
  made := h.made
  distinct := h.distinct
  own := h.own
  found := by simpa only [halike.canonicalUtc, halike.blake3] using h.found
  free := h.free
  sizes := h.sizes
  removed := h.removed
  below := h.below
  created := h.created

theorem seen_alike (value : TreeEntry ProjectFile) : seen other value = seen context value := by
  cases value with
  | file file => simp only [seen, halike.canonicalUtc]
  | directory => rfl
  | link => rfl
  | special => rfl

theorem Standing.alike {applied : Prop} {path : Path} {now : Option (TreeEntry ProjectFile)}
    (h : Standing context plan before applied payload path now) :
    Standing other plan before applied payload path now := by
  cases h with
  | same h =>
      apply same
      rw [funext (seen_alike halike)]
      exact h
  | implied hbefore habove hnot => exact .implied hbefore habove hnot
  | retimed happlied hmem htype hpath hbefore =>
      exact .retimed happlied hmem htype hpath hbefore
  | gone happlied hleaves hkept => exact .gone happlied hleaves hkept
  | came happlied hmem hstaged hpath hkept hhash =>
      exact .came happlied hmem hstaged hpath hkept (by rw [halike.blake3]; exact hhash)
  | made happlied hleaves hkept hcomes => exact .made happlied hleaves hkept hcomes

theorem Between.alike {applied : Prop} (h : Between context plan before applied current payload) :
    Between other plan before applied current payload :=
  fun path hown => (h path hown).alike halike

theorem JournalState.promises_alike {state : JournalState}
    (h : state.Promises context plan before current payload) :
    state.Promises other plan before current payload := by
  cases state with
  | created => exact Between.alike halike h
  | staged => exact Between.alike halike h
  | applying => exact Between.alike halike h
  | recovered => exact Between.alike halike h
  | committed =>
      refine ⟨Between.alike halike h.between, fun operation hmem => ?_⟩
      simpa only [AfterOperation, halike.canonicalUtc, halike.blake3] using h.operations operation hmem

theorem Promised.alike {workspace : Workspace}
    (h : Promised context plan before transactionId workspace) :
    Promised other plan before transactionId workspace := by
  rcases hjournal : workspace.journal with _ | journal
  · rw [Promised, hjournal] at h ⊢
    exact h
  · rw [Promised, hjournal] at h ⊢
    exact ⟨h.1.alike halike, h.2.1, JournalState.promises_alike halike h.2.2⟩

end Alike

section Runs

variable {context : TransactionContext} {plan : OperationPlan} {start : Workspace}
variable {transactionId : String} {scan : ProjectScan}
variable {authorizationOf : OperationPlan → CheckPoResult String}
variable {ensureCapacity : OperationPlan → CheckPoResult Unit}
variable {quarantineUnknownTransaction : String → TransactionM String}

theorem within_alike (surroundings : TransactionSurroundings) :
    SeesAlike context (context.within surroundings) :=
  ⟨rfl, rfl⟩

theorem promised_within (surroundings : TransactionSurroundings) {before : ProjectFiles}
    {workspace : Workspace} :
    Promised (context.within surroundings) plan before transactionId workspace ↔
      Promised context plan before transactionId workspace :=
  ⟨Promised.alike (within_alike surroundings).symm, Promised.alike (within_alike surroundings)⟩

section Built

variable {checkpointId : SnapshotId} {kind : OperationPlanKind}
variable {selected : Option (List TrackedUnityFilePath)}
-- the plan was built for the project, and has nothing to do with names of the program
variable (hbuilt : buildPlan context.canonicalUtc context.blake3 (start.project.seenBy context)
  context.load scan authorizationOf checkpointId kind selected = .ok plan)
variable (hown : ∀ operation ∈ plan.operations, ¬ ToolPath operation.path.segments)
-- a time that is written out and read again is the same text
variable (htimes : ∀ time parsed, context.parseRfc3339 (context.canonicalUtc time) = .ok parsed →
  context.canonicalUtc parsed = context.canonicalUtc time)
variable (hquarantine : ∀ reason, WritesAlong LeavesAlone (quarantineUnknownTransaction reason))
include hbuilt hown htimes hquarantine

/-- Every invocation keeps the promise, wherever it stops. -/
theorem invoke_promised (call : TransactionCall) :
    CrashTriple (fun workspace => Promised context plan start.project transactionId workspace ∧
        call.may workspace)
      (call.invoke context plan transactionId authorizationOf ensureCapacity
        quarantineUnknownTransaction)
      (fun _ => Promised context plan start.project transactionId)
      (fun _ => Promised context plan start.project transactionId)
      (fun after => True → Promised context plan start.project transactionId after) := by
  have hfits (surroundings : TransactionSurroundings)
      (hrecheck : recheckPreconditions context.canonicalUtc context.blake3
        (start.project.seenBy context) plan = .ok ())
      (hvalid : validateJournalOperations context.load plan.checkpointId plan.operations = .ok ()) :
      PlanFits (context.within surroundings) plan start.project :=
    (planFits_of_checks hbuilt hown hvalid hrecheck).alike (within_alike surroundings)
  have halike (surroundings : TransactionSurroundings)
      (hcall : Guarded (Promised (context.within surroundings) plan start.project transactionId)
        call.may (call.invoke context plan transactionId authorizationOf ensureCapacity
          quarantineUnknownTransaction) fun _ _ => True) :
      CrashTriple (fun workspace => Promised context plan start.project transactionId workspace ∧
          call.may workspace)
        (call.invoke context plan transactionId authorizationOf ensureCapacity
          quarantineUnknownTransaction)
        (fun _ => Promised context plan start.project transactionId)
        (fun _ => Promised context plan start.project transactionId)
        (fun after => True → Promised context plan start.project transactionId after) := by
    apply CrashTriple.weaken hcall
    · exact fun _ hstate => ⟨(promised_within surroundings).mpr hstate.1, hstate.2⟩
    · exact fun _ _ hstate => (promised_within surroundings).mp hstate.1
    · exact fun _ _ hstate => (promised_within surroundings).mp hstate
    · exact fun _ hstate _ => (promised_within surroundings).mp hstate
  cases call with
  | apply surroundings options =>
      exact halike surroundings (.bind (applyPlanOnce_guarded surroundings.plain
        (hfits surroundings)) fun _ => .pure fun _ _ h => h)
  | recover surroundings =>
      exact halike surroundings (recoverOne_guarded surroundings.plain htimes hquarantine)

variable (hjournal : start.journal = none) {workspace : Workspace}
include hjournal

/-- No content is lost: in every state that is reached each file of the project is in its place,
or the plan is being or has been applied and the backup has the file's content. -/
theorem transaction_keeps_contents
    (hreached : Reached (TransactionCall.invoke context plan transactionId authorizationOf
      ensureCapacity quarantineUnknownTransaction) TransactionCall.may (fun _ => True) start
      workspace) {path : Path} {file : ProjectFile} (hpath : ¬ ToolPath path)
    (hfile : start.project.entry path = some (.file file)) :
    (∃ found, workspace.project.entry path = some (.file found) ∧ found.content = file.content) ∨
      ∃ journal, workspace.journal = some journal ∧
        (journal.state = .applying ∨ journal.state = .committed) ∧
        workspace.payload.entry ("backup" :: path) = some (.file file.content) := by
  have hpromised : Promised context plan start.project transactionId workspace := by
    apply hreached.invariant
    · rw [Promised, hjournal]
    · exact invoke_promised hbuilt hown htimes hquarantine
  exact hpromised.content hpath hfile

end Built

end Runs

/-- What a recovery does once it has read the backup. -/
def recoverBackedUp (context : TransactionContext) (journal : TransactionJournal)
    (backupPaths : Finset TrackedUnityFilePath) : TransactionM Unit := do
  let stagedPaths ← Durable.inspect fun workspace =>
    workspace.validateTransactionPayload context ["staged"]
      ((journal.operations.filter FileOperation.isStaged).map FileOperation.path).toFinset
  (journal.operations.filter FileOperation.isStaged).forM
    (cleanupMaterializationTemp context journal.transactionId)
  let needed ← Durable.inspect fun workspace =>
    workspace.transactionNeedsRollback context journal backupPaths stagedPaths
  (if needed = true then recoverTopologyTransaction context journal else pure ())
  removeRepositoryTreeIfExists context ["staged"]
  let _ ← advanceJournal context journal .recovered
  return ()

theorem recoverOne_run {context : TransactionContext}
    {quarantineUnknownTransaction : String → TransactionM String} {directoryId : String}
    {workspace : Workspace} {journal : TransactionJournal}
    {backupPaths : Finset TrackedUnityFilePath}
    (hjournal : workspace.journal = some journal)
    (hidentity : validateTransactionJournalIdentity directoryId journal = .ok ())
    (hne : journal.operations ≠ [])
    (hoperations : validateJournalOperations context.load journal.checkpointId
      journal.operations = .ok ())
    (htopology : validateJournalDirectoryTopology journal.operations
      journal.directoriesToRemove journal.directoriesToCreate = .ok ())
    (hbackup : workspace.validateTransactionPayload context ["backup"]
      ((journal.operations.filter FileOperation.isBackedUp).map
        FileOperation.path).toFinset = .ok backupPaths) :
    (recoverOne context quarantineUnknownTransaction directoryId).run workspace =
      (recoverBackedUp context journal backupPaths).run workspace := by
  rw [recoverOne, Durable.inspect_bind_run]
  simp only [hjournal]
  rw [Durable.lift_bind_run, hidentity]
  simp only [if_neg hne]
  rw [Durable.lift_bind_run, hoperations]
  simp only
  rw [Durable.lift_bind_run, htopology]
  simp only
  rw [Durable.inspect_bind_run]
  simp only [hbackup]
  rfl

/-! A file that an empty checkpoint does not have. -/

def addedWorking : List (TrackedUnityFilePath × CurrentFileState) :=
  [(Sample.pathA, ⟨Sample.hash [], 0, Sample.epoch⟩)]

def addedFiles : FileTree ProjectFile :=
  .ofList [([], .directory), (["Assets"], .directory), (["Assets", "a"], .file ⟨[], ⟨0, 0⟩⟩)]

def addedTree : WorkingTree := .exact "project" addedFiles (by decide) (by decide) (by decide)

def addedProject : ProjectFiles where
  tree := addedFiles
  rooted := addedTree.rooted
  closed := addedTree.parents
  plain := addedTree.plain

def addedWorkspace : Workspace where
  project := addedProject
  payload := .ofList [([], .directory)]
  modified _ := ⟨0, 0⟩
  journal := none

def addedContext : TransactionContext where
  projectRoot := "project"
  transactionRoot := "transaction"
  beyondLink _ := .error .notFound
  canonicalUtc _ := Sample.epoch
  parseRfc3339 _ := .ok ⟨0, 0⟩
  blake3 := Sample.hash
  projectUuid _ _ _ := "0"
  payloadUuid _ _ _ := "0"
  clock _ := ⟨0, 0⟩
  nowUtcString _ := Sample.epoch
  order := inferInstance
  load _ := .ok (Sample.snapshot [])
  objects _ := none
  volumes := .same

def addedSurroundings : TransactionSurroundings where
  projectUuid _ _ _ := "0"
  plain _ _ _ := by decide
  payloadUuid _ _ _ := "0"
  clock _ := ⟨0, 0⟩
  nowUtcString _ := Sample.epoch
  order := inferInstance
  objects _ := none
  volumes := .same

instance decidableToolPath : DecidablePred ToolPath := fun path =>
  inferInstanceAs (Decidable (∃ name ∈ path, ".checkpo-".toList <+: name.toList))

def removalPlanned : CheckPoResult OperationPlan :=
  buildPlan addedContext.canonicalUtc addedContext.blake3
    (addedWorkspace.project.seenBy addedContext) addedContext.load
    (fun _ => .ok (addedWorking, [])) (fun _ => .ok "key") validationId .restore none

/-- The plan that removes the file. -/
def removalPlan : OperationPlan :=
  removalPlanned.toOption.getD (.new validationId .restore none [])

def addedInvoke : TransactionCall → TransactionM Unit :=
  TransactionCall.invoke addedContext removalPlan "transaction" (fun _ => .ok "key")
    (fun _ => .ok ()) fun _ => pure "quarantine"

def removalCall : TransactionCall := .apply addedSurroundings ⟨true, 1⟩

def recoveryCall : TransactionCall := .recover addedSurroundings

/-- The plan is cut short when the file has left the project. -/
def cutRemoval : Workspace :=
  ((addedInvoke removalCall).run addedWorkspace).1.getD 10 addedWorkspace

/-- The recovery is cut short when the file is back. -/
def cutRecovery : Workspace :=
  ((addedInvoke recoveryCall).run cutRemoval).1.getD 3 cutRemoval

/-- The next recovery ends. -/
def recoveredRemoval : Workspace := (addedInvoke recoveryCall).final cutRecovery

def removalJournal : TransactionJournal :=
  { removalPlan.journal "transaction" Sample.epoch with state := .applying }

/-- The backup holds the removed file. -/
structure RemovalBackedUp (workspace : Workspace) : Prop where
  journal : workspace.journal = some removalJournal
  backup : workspace.payload.entry ["backup"] = some .directory
  assets : workspace.payload.entry ["backup", "Assets"] = some .directory
  file : workspace.payload.entry ["backup", "Assets", "a"] = some (.file [])
  below : workspace.payload.below ["backup"] =
    [["backup", "Assets"], ["backup", "Assets", "a"]].toFinset

theorem RemovalBackedUp.recover_run {workspace : Workspace} (h : RemovalBackedUp workspace) :
    (addedInvoke recoveryCall).run workspace =
      (recoverBackedUp (addedContext.within addedSurroundings) removalJournal
        {Sample.pathA}).run workspace := by
  have hwalk : workspace.payload.walk ["backup"] =
      [["backup", "Assets"], ["backup", "Assets", "a"]] := by
    rw [FileTree.walk, h.below]
    exact (List.toFinset_sort (· ≤ ·) (by decide)).mpr (by decide)
  have hallowed : ((removalJournal.operations.filter FileOperation.isBackedUp).map
      FileOperation.path).toFinset = {Sample.pathA} := by
    decide +kernel
  have hinvoke : addedInvoke recoveryCall = recoverOne (addedContext.within addedSurroundings)
      (fun _ => pure "quarantine") "transaction" := rfl
  rw [hinvoke]
  apply recoverOne_run h.journal
  · decide +kernel
  · decide +kernel
  · decide +kernel
  · decide +kernel
  · rw [hallowed]
    simp only [Workspace.validateTransactionPayload, h.backup, hwalk, gatherInto, List.foldlM_cons,
      List.foldlM_nil, h.assets, h.file]
    decide +kernel

theorem cutRemoval_backedUp : RemovalBackedUp cutRemoval := by
  constructor
  all_goals decide +kernel

/-- The rest of the two recoveries. -/
def removalRecovery : TransactionM Unit :=
  recoverBackedUp (addedContext.within addedSurroundings) removalJournal {Sample.pathA}

theorem cutRecovery_eq : cutRecovery = (removalRecovery.run cutRemoval).1.getD 3 cutRemoval := by
  rw [cutRecovery, cutRemoval_backedUp.recover_run, removalRecovery]

theorem cutRecovery_backedUp : RemovalBackedUp cutRecovery := by
  rw [cutRecovery_eq]
  constructor
  all_goals decide +kernel

theorem recoveredRemoval_state :
    recoveredRemoval.journal.map TransactionJournal.state = some .recovered := by
  have hend : recoveredRemoval = removalRecovery.final cutRecovery := by
    rw [recoveredRemoval, Durable.final, cutRecovery_backedUp.recover_run, removalRecovery,
      Durable.final]
  rw [hend, cutRecovery_eq]
  decide +kernel

theorem may_recover {workspace : Workspace} (h : RemovalBackedUp workspace) :
    recoveryCall.may workspace := by
  intro journal hjournal
  rw [h.journal, Option.some.injEq] at hjournal
  rw [← hjournal]
  rfl

theorem reached_cutRemoval : Reached addedInvoke TransactionCall.may (fun _ => True)
    addedWorkspace cutRemoval := by
  have hmay : removalCall.may addedWorkspace := rfl
  have hlength : 10 < ((addedInvoke removalCall).run addedWorkspace).1.length := by
    decide +kernel
  have hmem : cutRemoval ∈ ((addedInvoke removalCall).run addedWorkspace).1 := by
    rw [cutRemoval, List.getD_eq_getElem _ _ hlength]
    exact List.getElem_mem hlength
  exact .crashed .start hmay hmem trivial

/-- The plan is cut short, its recovery too, and the next recovery ends. -/
theorem reached_recoveredRemoval : Reached addedInvoke TransactionCall.may (fun _ => True)
    addedWorkspace recoveredRemoval := by
  have hlength : 3 < (removalRecovery.run cutRemoval).1.length := by
    decide +kernel
  have hmem : cutRecovery ∈ ((addedInvoke recoveryCall).run cutRemoval).1 := by
    rw [cutRecovery_eq, cutRemoval_backedUp.recover_run, ← removalRecovery,
      List.getD_eq_getElem _ _ hlength]
    exact List.getElem_mem hlength
  have hcut := Reached.crashed reached_cutRemoval (may_recover cutRemoval_backedUp) hmem trivial
  exact .ended hcut (may_recover cutRecovery_backedUp)

theorem removalPlanned_eq : removalPlanned = .ok removalPlan := by decide +kernel

theorem removalPlan_own : ∀ operation ∈ removalPlan.operations,
    ¬ ToolPath operation.path.segments := by
  decide +kernel

/-- The file is in the backup when the plan is cut short, and in its place in the end. -/
theorem transaction_keeps_contents_removal :
    cutRemoval.project.entry ["Assets", "a"] = none ∧
      cutRemoval.payload.entry ["backup", "Assets", "a"] = some (.file []) ∧
      ∃ found, recoveredRemoval.project.entry ["Assets", "a"] = some (.file found) ∧
        found.content = [] := by
  have hfile : addedWorkspace.project.entry ["Assets", "a"] = some (.file ⟨[], ⟨0, 0⟩⟩) := by
    decide
  have hkept {workspace : Workspace} (hreached : Reached addedInvoke TransactionCall.may
      (fun _ => True) addedWorkspace workspace) :=
    transaction_keeps_contents removalPlanned_eq removalPlan_own (fun _ _ _ => rfl)
      (fun _ => .pure) rfl hreached (by decide) hfile
  have hgone : cutRemoval.project.entry ["Assets", "a"] = none := by
    decide +kernel
  refine ⟨hgone, ?_, ?_⟩
  · rcases hkept reached_cutRemoval with ⟨found, hfound, -⟩ | ⟨-, -, -, hbackup⟩
    · rw [hgone] at hfound
      cases hfound
    · exact hbackup
  · rcases hkept reached_recoveredRemoval with hfound | ⟨journal, hjournal, hstate, -⟩
    · exact hfound
    · have hrecovered := recoveredRemoval_state
      rw [hjournal, Option.map_some, Option.some.injEq] at hrecovered
      rw [hrecovered] at hstate
      rcases hstate with hstate | hstate <;> cases hstate

end CheckPo
