/-
Held directories whose entries still have to be made durable.  A batch keeps a
bounded number of them; a flush syncs the deepest first and keeps what it could not
sync.  The history notes what was recorded and what was synced: whatever was
recorded and not synced since is pending.
-/
import CheckPo.Hoare
import CheckPo.Obligations
import CheckPo.TransactionPlan

namespace CheckPo

structure FileIdentity where
  device : UInt64
  inode : UInt64
deriving DecidableEq

/-- An open directory. -/
structure AnchoredParent where
  displayPath : Path
  identity : FileIdentity
deriving DecidableEq

def AnchoredParent.sameDirectory (parent other : AnchoredParent) : Bool :=
  parent.identity == other.identity

structure AnchoredParentSyncBatch where
  parents : List AnchoredParent
  maxPending : Nat
  completedCount : Nat

/-- What the callers and the file system see of a batch, in order. -/
inductive SyncEvent where
  | recorded (parent : AnchoredParent)
  | synced (parent : AnchoredParent)
  | failed (parent : AnchoredParent)
  | reported (completed total : Nat)
deriving DecidableEq

structure SyncState where
  batch : AnchoredParentSyncBatch
  history : List SyncEvent

def SyncState.log (state : SyncState) (event : SyncEvent) : SyncState :=
  { state with history := state.history ++ [event] }

/-- `&mut self` and `Result`: what was changed before an error stays changed. -/
abbrev SyncM := ExceptT CheckPoError (StateM SyncState)

/-- The answer of a progress callback, which may keep a state of its own. -/
abbrev SyncProgress := List SyncEvent → Nat → Nat → CheckPoResult Unit

namespace AnchoredParentSyncBatch

def defaultMaxPending : Nat := 128

def new : AnchoredParentSyncBatch := ⟨[], defaultMaxPending, 0⟩

def withMaxPending (maxPending : Nat) : AnchoredParentSyncBatch := ⟨[], max maxPending 1, 0⟩

/-- The comparison of `flush_with_progress`: by the number of components, then by the
path, the later first. -/
def flushOrder (left right : AnchoredParent) : Bool :=
  left.displayPath.length < right.displayPath.length ||
    (left.displayPath.length == right.displayPath.length &&
      decide (right.displayPath.map utf8 ≤ left.displayPath.map utf8))

section Environment

-- What `fsync` answers may depend on all that happened.
variable (fsync : List SyncEvent → AnchoredParent → CheckPoResult Unit)

def syncAll (parent : AnchoredParent) : SyncM Unit := do
  let state ← get
  match fsync state.history parent with
  | .ok () => set (state.log (.synced parent))
  | .error error => do
      set (state.log (.failed parent))
      throw error

def report (progress : SyncProgress) (total : Nat) : SyncM Unit := do
  let state ← get
  set (state.log (.reported state.batch.completedCount total))
  liftM (progress state.history state.batch.completedCount total)

/-- `Vec::pop` and the count. -/
def pop : SyncM Unit := do
  let state ← get
  set { state with batch := { state.batch with
    parents := state.batch.parents.dropLast
    completedCount := saturatingAdd state.batch.completedCount 1 } }

/-- The loop over the parents left, the last first. -/
def flushParents (progress : SyncProgress) (total : Nat) : List AnchoredParent → SyncM Unit
  | [] => pure ()
  | parent :: rest => do
      syncAll fsync parent
      pop
      report progress total
      flushParents progress total rest

def flushWithProgress (progress : SyncProgress) : SyncM Unit := do
  let state ← get
  let parents := state.batch.parents.mergeSort flushOrder
  set { state with batch := { state.batch with parents := parents } }
  let total := saturatingAdd state.batch.completedCount parents.length
  report progress total
  flushParents fsync progress total parents.reverse

def flush : SyncM Unit := flushWithProgress fsync fun _ _ _ => .ok ()

/-- Keep a directory and note it. -/
def push (parent : AnchoredParent) : SyncM Unit := do
  let state ← get
  set ({ state with batch := { state.batch with
    parents := state.batch.parents ++ [parent] } }.log (.recorded parent))

def record (parent : AnchoredParent) : SyncM Unit := do
  let state ← get
  if state.batch.parents.any (fun existing => existing.sameDirectory parent) = true then
    set (state.log (.recorded parent))
  else if state.batch.maxPending ≤ state.batch.parents.length then do
    flush fsync
    push parent
  else push parent

def merge (other : AnchoredParentSyncBatch) : SyncM Unit := do
  let state ← get
  set { state with batch := { state.batch with
    completedCount := saturatingAdd state.batch.completedCount other.completedCount } }
  other.parents.forM (record fsync)

end Environment

end AnchoredParentSyncBatch

/-- A call on a batch. -/
inductive BatchCall where
  | record (parent : AnchoredParent)
  | merge (other : AnchoredParentSyncBatch)
  | flush
  | flushWithProgress (progress : SyncProgress)

namespace BatchCall

variable (fsync : List SyncEvent → AnchoredParent → CheckPoResult Unit)

def run : BatchCall → SyncM Unit
  | .record parent => AnchoredParentSyncBatch.record fsync parent
  | .merge other => AnchoredParentSyncBatch.merge fsync other
  | .flush => AnchoredParentSyncBatch.flush fsync
  | .flushWithProgress progress => AnchoredParentSyncBatch.flushWithProgress fsync progress

/-- The directories a call asks to make durable. -/
def parents : BatchCall → List AnchoredParent
  | .record parent => [parent]
  | .merge other => other.parents
  | _ => []

/-- The state after some calls; a call that fails does not end the sequence. -/
def runAll : List BatchCall → SyncState → SyncState
  | [], state => state
  | call :: rest, state => runAll rest (run fsync call state).2

end BatchCall

/-! What a flush does. -/

def SyncEvent.synced? : SyncEvent → Option AnchoredParent
  | .synced parent => some parent
  | _ => none

/-- Whatever is noted as synced after `base` was synced: `fsync` returned when it was asked. -/
def Confirmed (fsync : List SyncEvent → AnchoredParent → CheckPoResult Unit)
    (base events : List SyncEvent) : Prop :=
  ∀ front parent back, events = front ++ .synced parent :: back →
    fsync (base ++ front) parent = .ok ()

section Confirmed

variable {fsync : List SyncEvent → AnchoredParent → CheckPoResult Unit}
variable {base events more : List SyncEvent}

theorem confirmed_nil : Confirmed fsync base [] := by
  intro front parent back heq
  simp at heq

theorem Confirmed.append (h : Confirmed fsync base events)
    (hmore : Confirmed fsync (base ++ events) more) : Confirmed fsync base (events ++ more) := by
  intro front parent back heq
  rcases List.append_eq_append_iff.mp heq with ⟨middle, rfl, hback⟩ | ⟨middle, hevents, hback⟩
  · rw [← List.append_assoc]
    exact hmore middle parent back hback
  · rcases middle with _ | ⟨event, middle⟩
    · rw [List.append_nil] at hevents
      subst hevents
      have hfirst := hmore [] parent back hback.symm
      rwa [List.append_nil] at hfirst
    · rw [List.cons_append, List.cons.injEq] at hback
      exact h front parent middle (hback.1 ▸ hevents)

theorem confirmed_synced {parent : AnchoredParent} (h : fsync base parent = .ok ()) :
    Confirmed fsync base [.synced parent] := by
  intro front other back heq
  rcases front with _ | ⟨event, front⟩
  · rw [List.nil_append, List.cons.injEq, SyncEvent.synced.injEq] at heq
    rw [List.append_nil, ← heq.1, h]
  · simp at heq

theorem confirmed_other {event : SyncEvent} (h : ∀ parent, event ≠ .synced parent) :
    Confirmed fsync base [event] := by
  intro front parent back heq
  rcases front with _ | ⟨first, front⟩
  · rw [List.nil_append, List.cons.injEq] at heq
    exact absurd heq.1 (h parent)
  · simp at heq

end Confirmed

/-- What a flush that synced `done` and not `rest` leaves behind. -/
structure FlushSteps (fsync : List SyncEvent → AnchoredParent → CheckPoResult Unit)
    (before : SyncState) (done rest : List AnchoredParent) (after : SyncState) : Prop where
  parents_eq : after.batch.parents = rest.reverse
  limit_eq : after.batch.maxPending = before.batch.maxPending
  history_eq : ∃ events, after.history = before.history ++ events ∧
    events.filterMap SyncEvent.synced? = done ∧ (∀ parent, .recorded parent ∉ events) ∧
      Confirmed fsync before.history events

namespace FlushSteps

variable {fsync : List SyncEvent → AnchoredParent → CheckPoResult Unit}
variable {before state after : SyncState} {done rest : List AnchoredParent}

/-- A failure or a report changes only what is noted. -/
theorem log (h : FlushSteps fsync before done rest state) {event : SyncEvent}
    (hsynced : event.synced? = none) (hrecorded : ∀ parent, event ≠ .recorded parent) :
    FlushSteps fsync before done rest (state.log event) := by
  rcases h.history_eq with ⟨events, hhistory, hdone, hfresh, hconfirmed⟩
  have hother : ∀ parent, event ≠ .synced parent := by
    rintro parent rfl
    cases hsynced
  refine ⟨h.parents_eq, h.limit_eq, events ++ [event], ?_, ?_, ?_,
    hconfirmed.append (confirmed_other hother)⟩
  · rw [SyncState.log, hhistory, List.append_assoc]
  · rw [List.filterMap_append, hdone, List.filterMap_cons_none hsynced, List.filterMap_nil,
      List.append_nil]
  · intro parent hmem
    rcases List.mem_append.mp hmem with hmem | hmem
    · exact hfresh parent hmem
    · exact hrecorded parent (List.mem_singleton.mp hmem).symm

/-- A directory that was synced is taken off the end of the parents. -/
theorem pop {parent : AnchoredParent} (h : FlushSteps fsync before done (parent :: rest) state)
    (hsync : fsync state.history parent = .ok ())
    (hhistory : after.history = state.history ++ [.synced parent])
    (hparents : after.batch.parents = state.batch.parents.dropLast)
    (hlimit : after.batch.maxPending = state.batch.maxPending) :
    FlushSteps fsync before (done ++ [parent]) rest after := by
  rcases h.history_eq with ⟨events, hevents, hdone, hfresh, hconfirmed⟩
  refine ⟨?_, hlimit.trans h.limit_eq, events ++ [.synced parent], ?_, ?_, ?_,
    hconfirmed.append (confirmed_synced (hevents ▸ hsync))⟩
  · rw [hparents, h.parents_eq, List.reverse_cons, List.dropLast_concat]
  · rw [hhistory, hevents, List.append_assoc]
  · rw [List.filterMap_append, hdone]
    rfl
  · intro other hmem
    rcases List.mem_append.mp hmem with hmem | hmem
    · exact hfresh other hmem
    · simp at hmem

end FlushSteps

namespace AnchoredParentSyncBatch

variable {fsync : List SyncEvent → AnchoredParent → CheckPoResult Unit}
variable {before : SyncState} {done rest : List AnchoredParent}

theorem report_triple (progress : SyncProgress) (total : Nat) :
    Triple (FlushSteps fsync before done rest) (report progress total)
      (fun _ => FlushSteps fsync before done rest) (FlushSteps fsync before done rest) := by
  refine Triple.get_bind fun state hstate => ?_
  have hlogged : FlushSteps fsync before done rest
      (state.log (.reported state.batch.completedCount total)) :=
    hstate.log rfl fun parent heq => by cases heq
  refine Triple.bind (m := fun _ => FlushSteps fsync before done rest) (Triple.set fun after hafter => ?_)
    fun _ => Triple.lift (fun _ _ _ hafter => hafter) fun _ _ _ hafter => hafter
  exact hafter ▸ hlogged

/-- One turn of the loop before its report. -/
theorem syncAll_pop_triple {parent : AnchoredParent} {next : SyncM Unit}
    {post : Unit → SyncState → Prop} {fail : SyncState → Prop}
    (hfail : ∀ state, FlushSteps fsync before done (parent :: rest) state → fail state)
    (hnext : Triple (FlushSteps fsync before (done ++ [parent]) rest) next post fail) :
    Triple (FlushSteps fsync before done (parent :: rest))
      (syncAll fsync parent >>= fun _ => pop >>= fun _ => next) post fail := by
  refine Triple.bind (m := fun _ after => ∃ state,
    FlushSteps fsync before done (parent :: rest) state ∧
      fsync state.history parent = .ok () ∧ after = state.log (.synced parent)) ?_ fun _ => ?_
  · refine Triple.get_bind fun state hstate => ?_
    split
    · next hsync => exact Triple.set fun _ _ => ⟨state, hstate, hsync, rfl⟩
    · refine Triple.bind (m := fun _ => fail) (Triple.set fun _ _ => ?_)
        fun _ => Triple.throw fun _ hafter => hafter
      exact hfail _ (hstate.log rfl fun parent heq => by cases heq)
  · refine Triple.bind (m := fun _ => FlushSteps fsync before (done ++ [parent]) rest) ?_ fun _ => hnext
    refine Triple.get_bind fun middle hmiddle => Triple.set fun after hafter => ?_
    rcases hmiddle with ⟨state, hstate, hsync, rfl⟩
    exact hstate.pop hsync rfl rfl rfl

/-- The loop syncs the parents in order and stops at the first that fails. -/
theorem flushParents_triple (progress : SyncProgress) (total : Nat)
    (pending : List AnchoredParent) :
    Triple (FlushSteps fsync before done pending) (flushParents fsync progress total pending)
      (fun _ => FlushSteps fsync before (done ++ pending) [])
      (fun after => ∃ more rest, pending = more ++ rest ∧
        FlushSteps fsync before (done ++ more) rest after) := by
  induction pending generalizing done with
  | nil =>
      refine Triple.pure fun state hstate => ?_
      rw [List.append_nil]
      exact hstate
  | cons parent rest ih =>
      apply syncAll_pop_triple
      · intro state hstate
        refine ⟨[], parent :: rest, rfl, ?_⟩
        rw [List.append_nil]
        exact hstate
      · have hlater : ∀ more left after, rest = more ++ left →
            FlushSteps fsync before (done ++ [parent] ++ more) left after →
            ∃ more left, parent :: rest = more ++ left ∧
              FlushSteps fsync before (done ++ more) left after := by
          intro more left after hrest hsteps
          refine ⟨parent :: more, left, by rw [hrest]; rfl, ?_⟩
          rwa [List.append_assoc] at hsteps
        refine Triple.bind ((report_triple progress total).weaken (fun _ hstate => hstate)
          (fun _ _ hafter => hafter) fun after hafter =>
            hlater [] rest after rfl (by rwa [List.append_nil])) fun _ => ?_
        refine ih.weaken (fun _ hstate => hstate) (fun _ after hafter => ?_) fun after hafter => ?_
        · rwa [List.append_assoc] at hafter
        · rcases hafter with ⟨more, left, hrest, hsteps⟩
          exact hlater more left after hrest hsteps

/-- The directories of a batch in the order in which a flush syncs them. -/
def flushSequence (batch : AnchoredParentSyncBatch) : List AnchoredParent :=
  (batch.parents.mergeSort flushOrder).reverse

/-- A flush syncs the parents from the deepest on, all of them when it returns. -/
theorem flushWithProgress_triple (progress : SyncProgress) (before : SyncState) :
    Triple (fun state => state = before) (flushWithProgress fsync progress)
      (fun _ => FlushSteps fsync before before.batch.flushSequence [])
      (fun after => ∃ done rest, before.batch.flushSequence = done ++ rest ∧
        FlushSteps fsync before done rest after) := by
  refine Triple.get_bind fun state hstate => ?_
  subst hstate
  refine Triple.bind (m := fun _ => FlushSteps fsync state [] state.batch.flushSequence)
    (Triple.set fun after hafter => ?_) fun _ => ?_
  · refine ⟨?_, rfl, [], by simp, rfl, by simp, confirmed_nil⟩
    rw [flushSequence, List.reverse_reverse]
  · refine Triple.bind ((report_triple progress _).weaken (fun _ hstate => hstate)
      (fun _ _ hafter => hafter) fun after hafter => ⟨[], _, rfl, hafter⟩) fun _ => ?_
    exact flushParents_triple progress _ state.batch.flushSequence

/-! The order of a flush. -/

theorem flushOrder_trans {left middle right : AnchoredParent}
    (h : flushOrder left middle = true) (h' : flushOrder middle right = true) :
    flushOrder left right = true := by
  simp only [flushOrder, Bool.or_eq_true, Bool.and_eq_true, decide_eq_true_iff, beq_iff_eq]
    at h h' ⊢
  rcases h with h | ⟨h, hle⟩
  · rcases h' with h' | ⟨h', -⟩
    · exact Or.inl (h.trans h')
    · exact Or.inl (h' ▸ h)
  · rcases h' with h' | ⟨h', hle'⟩
    · exact Or.inl (h ▸ h')
    · exact Or.inr ⟨h.trans h', hle'.trans hle⟩

theorem flushOrder_total (left right : AnchoredParent) :
    (flushOrder left right || flushOrder right left) = true := by
  simp only [flushOrder, Bool.or_eq_true, Bool.and_eq_true, decide_eq_true_iff, beq_iff_eq]
  rcases lt_trichotomy left.displayPath.length right.displayPath.length with hlt | heq | hgt
  · exact Or.inl (Or.inl hlt)
  · rcases le_total (right.displayPath.map utf8) (left.displayPath.map utf8) with hle | hle
    · exact Or.inl (Or.inr ⟨heq, hle⟩)
    · exact Or.inr (Or.inr ⟨heq.symm, hle⟩)
  · exact Or.inr (Or.inl hgt)

theorem flushSequence_perm (batch : AnchoredParentSyncBatch) :
    batch.flushSequence.Perm batch.parents :=
  (List.reverse_perm _).trans (List.mergeSort_perm _ _)

/-- No directory is deeper than one before it. -/
theorem flushSequence_pairwise (batch : AnchoredParentSyncBatch) :
    batch.flushSequence.Pairwise fun earlier later =>
      later.displayPath.length ≤ earlier.displayPath.length := by
  have hsorted : (batch.parents.mergeSort flushOrder).Pairwise
      fun left right => flushOrder left right = true := by
    apply List.pairwise_mergeSort
    · intro left middle right h h'
      exact flushOrder_trans h h'
    · exact flushOrder_total
  rw [flushSequence, List.pairwise_reverse]
  refine hsorted.imp fun hle => ?_
  simp only [flushOrder, Bool.or_eq_true, Bool.and_eq_true, decide_eq_true_iff, beq_iff_eq] at hle
  rcases hle with hlt | ⟨heq, -⟩
  · exact hlt.le
  · exact heq.le

end AnchoredParentSyncBatch

/-- What holds of every flush, whether it returns or fails: it keeps what it did not sync,
what it notes as synced was synced, and that comes after everything pending below it. -/
structure FlushOrderly (fsync : List SyncEvent → AnchoredParent → CheckPoResult Unit)
    (before after : SyncState) (events : List SyncEvent) : Prop where
  history_eq : after.history = before.history ++ events
  kept : ∀ parent ∈ before.batch.parents,
    parent ∈ after.batch.parents ∨ .synced parent ∈ events
  confirmed : Confirmed fsync before.history events
  deepest_first : ∀ front parent back, events = front ++ .synced parent :: back →
    ∀ child ∈ before.batch.parents, parent.displayPath <+: child.displayPath →
      parent.displayPath ≠ child.displayPath → .synced child ∈ front

theorem mem_of_mem_synced {events : List SyncEvent} {parent : AnchoredParent}
    (h : parent ∈ events.filterMap SyncEvent.synced?) : .synced parent ∈ events := by
  rcases List.mem_filterMap.mp h with ⟨event, hevent, hsynced⟩
  cases event with
  | synced other =>
      cases hsynced
      exact hevent
  | _ => cases hsynced

theorem FlushSteps.orderly {fsync : List SyncEvent → AnchoredParent → CheckPoResult Unit}
    {before after : SyncState} {done rest : List AnchoredParent}
    (h : FlushSteps fsync before done rest after)
    (hsequence : before.batch.flushSequence = done ++ rest) :
    ∃ events, FlushOrderly fsync before after events := by
  rcases h.history_eq with ⟨events, hhistory, hdone, -, hconfirmed⟩
  have hmem : ∀ parent, parent ∈ before.batch.parents ↔ parent ∈ done ++ rest := fun parent => by
    rw [← hsequence, before.batch.flushSequence_perm.mem_iff]
  refine ⟨events, hhistory, fun parent hparent => ?_, hconfirmed, ?_⟩
  · rcases List.mem_append.mp ((hmem parent).mp hparent) with hdoneMem | hrest
    · exact Or.inr (mem_of_mem_synced (hdone ▸ hdoneMem))
    · refine Or.inl ?_
      rw [h.parents_eq]
      exact List.mem_reverse.mpr hrest
  · rintro front parent back rfl child hchild hancestor hne
    rw [List.filterMap_append, List.filterMap_cons_some
      (show SyncEvent.synced? (.synced parent) = some parent from rfl)] at hdone
    have hpairwise := before.batch.flushSequence_pairwise
    rw [hsequence, ← hdone, List.append_assoc] at hpairwise
    rw [hmem, ← hdone, List.append_assoc, List.mem_append] at hchild
    rcases hchild with hfront | hback
    · exact mem_of_mem_synced hfront
    · have hdeeper : parent.displayPath.length < child.displayPath.length :=
        lt_of_le_of_ne hancestor.length_le fun heq => hne (hancestor.eq_of_length heq)
      rcases List.mem_cons.mp hback with rfl | hlater
      · exact absurd rfl hne
      · have hle := List.rel_of_pairwise_cons (List.pairwise_append.mp hpairwise).2.1 hlater
        exact absurd hdeeper (not_lt.mpr hle)

/-! What a batch owes. -/

def SyncEvent.Records (event : SyncEvent) (identity : FileIdentity) : Prop :=
  ∃ parent, event = .recorded parent ∧ parent.identity = identity

def SyncEvent.Syncs (event : SyncEvent) (identity : FileIdentity) : Prop :=
  ∃ parent, event = .synced parent ∧ parent.identity = identity

/-- What holds of a batch between calls: its pending directories are different and not
too many, and whatever was recorded and not synced since is among them. -/
structure SyncState.Sound (limit : Nat) (state : SyncState) : Prop where
  limit_eq : state.batch.maxPending = limit
  bounded : state.batch.parents.length ≤ limit
  distinct : (state.batch.parents.map AnchoredParent.identity).Nodup
  covered : ∀ identity, Outstanding SyncEvent.Records SyncEvent.Syncs state.history identity →
    identity ∈ state.batch.parents.map AnchoredParent.identity

theorem FlushSteps.sound {fsync : List SyncEvent → AnchoredParent → CheckPoResult Unit}
    {before after : SyncState} {done rest : List AnchoredParent}
    {limit : Nat} (hsound : before.Sound limit) (h : FlushSteps fsync before done rest after)
    (hsequence : before.batch.flushSequence = done ++ rest) : after.Sound limit := by
  have hperm : (done ++ rest).Perm before.batch.parents :=
    hsequence ▸ before.batch.flushSequence_perm
  have hdistinct : ((done ++ rest).map AnchoredParent.identity).Nodup :=
    (hperm.map _).nodup_iff.mpr hsound.distinct
  have hrest : (rest.reverse.map AnchoredParent.identity).Nodup := by
    rw [List.map_append] at hdistinct
    rw [List.map_reverse, List.nodup_reverse]
    exact hdistinct.of_append_right
  have hlength := hperm.length_eq
  rw [List.length_append] at hlength
  have hbounded := hsound.bounded
  rcases h.history_eq with ⟨events, hhistory, hdone, hfresh, -⟩
  refine ⟨h.limit_eq.trans hsound.limit_eq, ?_, by rwa [h.parents_eq], fun identity hout => ?_⟩
  · rw [h.parents_eq, List.length_reverse]
    omega
  · rw [hhistory, outstanding_append] at hout
    rcases hout with ⟨hbefore, hevents⟩ | ⟨front, event, back, hsplit, ⟨parent, rfl, -⟩, -⟩
    · have hpending := hsound.covered identity hbefore
      rw [← (hperm.map AnchoredParent.identity).mem_iff, List.map_append, List.mem_append]
        at hpending
      rcases hpending with hdoneMem | hrestMem
      · rcases List.mem_map.mp hdoneMem with ⟨parent, hparent, hidentity⟩
        have hsynced := mem_of_mem_synced (hdone ▸ hparent)
        exact absurd ⟨parent, rfl, hidentity⟩ (hevents _ hsynced)
      · rw [h.parents_eq, List.map_reverse]
        exact List.mem_reverse.mpr hrestMem
    · refine absurd ?_ (hfresh parent)
      rw [hsplit]
      exact List.mem_append_right _ List.mem_cons_self

theorem SyncState.Sound.start {batch : AnchoredParentSyncBatch} (h : batch.parents = []) :
    SyncState.Sound batch.maxPending ⟨batch, []⟩ := by
  refine ⟨rfl, by simp [h], by simp [h], fun identity hout => ?_⟩
  exact absurd hout not_outstanding_nil

/-- A sound state whose history goes on from `base`, truly, and notes the given directories. -/
structure Noted (fsync : List SyncEvent → AnchoredParent → CheckPoResult Unit) (limit : Nat)
    (base : List SyncEvent) (noted : List AnchoredParent) (state : SyncState) : Prop where
  sound : state.Sound limit
  events : ∃ events, state.history = base ++ events ∧ Confirmed fsync base events ∧
    ∀ parent ∈ noted, .recorded parent ∈ events

theorem outstanding_recorded {history : List SyncEvent} {parent : AnchoredParent}
    {identity : FileIdentity} (h : Outstanding SyncEvent.Records SyncEvent.Syncs
      (history ++ [.recorded parent]) identity) :
    Outstanding SyncEvent.Records SyncEvent.Syncs history identity ∨
      parent.identity = identity := by
  rcases outstanding_concat.mp h with ⟨hbefore, -⟩ | ⟨other, heq, hidentity⟩
  · exact Or.inl hbefore
  · cases heq
    exact Or.inr hidentity

namespace Noted

variable {fsync : List SyncEvent → AnchoredParent → CheckPoResult Unit}
variable {limit : Nat} {base : List SyncEvent} {noted : List AnchoredParent}
variable {before state : SyncState} {parent : AnchoredParent}

theorem forget (h : Noted fsync limit base noted state) : Noted fsync limit base [] state := by
  rcases h.events with ⟨events, hhistory, hconfirmed, -⟩
  exact ⟨h.sound, events, hhistory, hconfirmed, by simp⟩

theorem log_recorded (h : Noted fsync limit base noted before)
    (hsound : state.Sound limit) (hhistory : state.history = before.history ++ [.recorded parent]) :
    Noted fsync limit base (noted ++ [parent]) state := by
  rcases h.events with ⟨events, hevents, hconfirmed, hnoted⟩
  refine ⟨hsound, events ++ [.recorded parent], ?_,
    hconfirmed.append (confirmed_other nofun), fun other hother => ?_⟩
  · rw [hhistory, hevents, List.append_assoc]
  · rcases List.mem_append.mp hother with hother | hother
    · exact List.mem_append_left _ (hnoted other hother)
    · rw [List.mem_singleton.mp hother]
      exact List.mem_append_right _ (List.mem_singleton_self _)

theorem flushSteps {done rest : List AnchoredParent} (h : Noted fsync limit base noted before)
    (hsteps : FlushSteps fsync before done rest state)
    (hsequence : before.batch.flushSequence = done ++ rest) : Noted fsync limit base noted state := by
  rcases h.events with ⟨events, hevents, hconfirmed, hnoted⟩
  rcases hsteps.history_eq with ⟨more, hmore, -, -, htrue⟩
  refine ⟨hsteps.sound h.sound hsequence, events ++ more, ?_,
    hconfirmed.append (hevents ▸ htrue), fun other hother => ?_⟩
  · rw [hmore, hevents, List.append_assoc]
  · exact List.mem_append_left _ (hnoted other hother)

end Noted

namespace AnchoredParentSyncBatch

variable {fsync : List SyncEvent → AnchoredParent → CheckPoResult Unit}
variable {limit : Nat} {base : List SyncEvent} {noted : List AnchoredParent}

theorem flush_noted (progress : SyncProgress) :
    Triple (Noted fsync limit base noted) (flushWithProgress fsync progress)
      (fun _ state => Noted fsync limit base noted state ∧ state.batch.parents = [])
      (Noted fsync limit base noted) := by
  refine Triple.of_states fun before hbefore => ?_
  refine (flushWithProgress_triple progress before).weaken (fun _ hstate => hstate)
    (fun _ after hsteps => ?_) fun after hsteps => ?_
  · exact ⟨hbefore.flushSteps hsteps (List.append_nil _).symm, hsteps.parents_eq⟩
  · rcases hsteps with ⟨done, rest, hsequence, hsteps⟩
    exact hbefore.flushSteps hsteps hsequence

theorem push_noted {parent : AnchoredParent} {fail : SyncState → Prop} :
    Triple (fun state => Noted fsync limit base noted state ∧ state.batch.parents.length < limit ∧
        parent.identity ∉ state.batch.parents.map AnchoredParent.identity)
      (push parent) (fun _ => Noted fsync limit base (noted ++ [parent])) fail := by
  refine Triple.get_bind fun state hstate => Triple.set fun after hafter => ?_
  rcases hstate with ⟨hnoted, hroom, hnew⟩
  refine hnoted.log_recorded ⟨hnoted.sound.limit_eq, ?_, ?_, fun identity hout => ?_⟩ rfl
  · change (state.batch.parents ++ [parent]).length ≤ limit
    rw [List.length_append, List.length_singleton]
    exact hroom
  · change ((state.batch.parents ++ [parent]).map AnchoredParent.identity).Nodup
    rw [List.map_append, List.nodup_append']
    refine ⟨hnoted.sound.distinct, List.nodup_singleton _, ?_⟩
    simpa using hnew
  · change identity ∈ (state.batch.parents ++ [parent]).map AnchoredParent.identity
    rw [List.map_append, List.mem_append]
    rcases outstanding_recorded hout with hbefore | hidentity
    · exact Or.inl (hnoted.sound.covered identity hbefore)
    · exact Or.inr (by simp [hidentity])

/-- Recording a directory that is pending only notes it. -/
theorem record_noted (hlimit : 0 < limit) (parent : AnchoredParent) :
    Triple (Noted fsync limit base noted) (record fsync parent)
      (fun _ => Noted fsync limit base (noted ++ [parent])) (Noted fsync limit base []) := by
  refine Triple.get_bind fun state hstate => ?_
  refine Triple.ite (fun hpending => ?_) fun hnew => Triple.ite (fun hfull => ?_) fun hroom => ?_
  · refine Triple.set fun after hafter => ?_
    refine hstate.log_recorded ⟨hstate.sound.limit_eq, hstate.sound.bounded,
      hstate.sound.distinct, fun identity hout => ?_⟩ rfl
    rcases outstanding_recorded hout with hbefore | hidentity
    · exact hstate.sound.covered identity hbefore
    · rcases List.any_eq_true.mp hpending with ⟨existing, hexisting, hsame⟩
      rw [AnchoredParent.sameDirectory, beq_iff_eq] at hsame
      exact List.mem_map.mpr ⟨existing, hexisting, hsame.trans hidentity⟩
  · refine Triple.bind ((flush_noted fun _ _ _ => .ok ()).weaken
      (fun after hafter => hafter ▸ hstate) (fun _ _ hafter => hafter)
      fun after hafter => hafter.forget) fun _ => ?_
    refine push_noted.weaken (fun after hafter => ?_) (fun _ _ hafter => hafter)
      fun after hafter => hafter
    rw [hafter.2]
    exact ⟨hafter.1, hlimit, List.not_mem_nil⟩
  · refine push_noted.weaken (fun after hafter => ?_) (fun _ _ hafter => hafter)
      fun after hafter => hafter
    subst hafter
    refine ⟨hstate, ?_, fun hmem => hnew ?_⟩
    · have hlimitEq := hstate.sound.limit_eq
      omega
    · rcases List.mem_map.mp hmem with ⟨existing, hexisting, hidentity⟩
      exact List.any_eq_true.mpr ⟨existing, hexisting, by
        rw [AnchoredParent.sameDirectory, beq_iff_eq, hidentity]⟩

theorem recordAll_noted (hlimit : 0 < limit) (others : List AnchoredParent) :
    Triple (Noted fsync limit base noted) (others.forM (record fsync))
      (fun _ => Noted fsync limit base (noted ++ others)) (Noted fsync limit base []) := by
  induction others generalizing noted with
  | nil =>
      rw [List.append_nil]
      exact Triple.pure fun _ hstate => hstate
  | cons parent rest ih =>
      rw [List.append_cons]
      exact Triple.bind (record_noted hlimit parent) fun _ => ih

theorem merge_noted (hlimit : 0 < limit) (other : AnchoredParentSyncBatch) :
    Triple (Noted fsync limit base noted) (merge fsync other)
      (fun _ => Noted fsync limit base (noted ++ other.parents)) (Noted fsync limit base []) := by
  refine Triple.get_bind fun state hstate => ?_
  refine Triple.bind (m := fun _ => Noted fsync limit base noted) (Triple.set fun after hafter => ?_)
    fun _ => recordAll_noted hlimit other.parents
  exact ⟨⟨hstate.sound.limit_eq, hstate.sound.bounded, hstate.sound.distinct,
    hstate.sound.covered⟩, hstate.events⟩

end AnchoredParentSyncBatch

/-! Runs of calls. -/

namespace BatchCall

variable {fsync : List SyncEvent → AnchoredParent → CheckPoResult Unit} {limit : Nat}

/-- Every call keeps the batch sound; one that returns has noted its directories. -/
theorem run_noted (hlimit : 0 < limit) (call : BatchCall) (base : List SyncEvent) :
    Triple (Noted fsync limit base []) (call.run fsync) (fun _ => Noted fsync limit base call.parents)
      (Noted fsync limit base []) := by
  cases call with
  | record parent => exact AnchoredParentSyncBatch.record_noted hlimit parent
  | merge other => exact AnchoredParentSyncBatch.merge_noted hlimit other
  | flush =>
      exact (AnchoredParentSyncBatch.flush_noted _).weaken (fun _ hstate => hstate)
        (fun _ _ hafter => hafter.1) fun _ hafter => hafter
  | flushWithProgress progress =>
      exact (AnchoredParentSyncBatch.flush_noted progress).weaken (fun _ hstate => hstate)
        (fun _ _ hafter => hafter.1) fun _ hafter => hafter

theorem noted_self {state : SyncState} (h : state.Sound limit) :
    Noted fsync limit state.history [] state :=
  ⟨h, [], by simp, confirmed_nil, by simp⟩

theorem run_after (hlimit : 0 < limit) (call : BatchCall) {state : SyncState}
    (h : state.Sound limit) : Noted fsync limit state.history [] (call.run fsync state).2 := by
  have hrun := @run_noted fsync limit hlimit call state.history state (noted_self h)
  rcases hresult : call.run fsync state with ⟨error | value, after⟩
  · rw [hresult] at hrun
    exact hrun
  · rw [hresult] at hrun
    exact hrun.forget

/-- Calls keep the batch sound and only add to the history. -/
theorem runAll_after (hlimit : 0 < limit) (calls : List BatchCall) {state : SyncState}
    (h : state.Sound limit) : Noted fsync limit state.history [] (runAll fsync calls state) := by
  induction calls generalizing state with
  | nil => exact noted_self h
  | cons call rest ih =>
      have hcall := @run_after fsync limit hlimit call state h
      have hrest := ih hcall.sound
      rcases hcall.events with ⟨events, hevents, hconfirmed, -⟩
      rcases hrest.events with ⟨more, hmore, htrue, -⟩
      exact ⟨hrest.sound, events ++ more, by rw [runAll, hmore, hevents, List.append_assoc],
        hconfirmed.append (hevents ▸ htrue), by simp⟩

theorem runAll_append (front back : List BatchCall) (state : SyncState) :
    runAll fsync (front ++ back) state = runAll fsync back (runAll fsync front state) := by
  induction front generalizing state with
  | nil => rfl
  | cons call rest ih => exact ih _

end BatchCall

/-- Every flush, from whatever state, keeps what it does not sync and goes from the
deepest directories up. -/
theorem flush_orderly (fsync : List SyncEvent → AnchoredParent → CheckPoResult Unit)
    (progress : SyncProgress) (before : SyncState) :
    ∃ events, FlushOrderly fsync before
      (AnchoredParentSyncBatch.flushWithProgress fsync progress before).2 events := by
  have hflush := @AnchoredParentSyncBatch.flushWithProgress_triple fsync progress before before rfl
  rcases hresult : AnchoredParentSyncBatch.flushWithProgress fsync progress before with
    ⟨error | value, after⟩
  · rw [hresult] at hflush
    rcases hflush with ⟨done, rest, hsequence, hsteps⟩
    exact hsteps.orderly hsequence
  · rw [hresult] at hflush
    exact FlushSteps.orderly hflush (List.append_nil _).symm

/-- A batch as its constructors make it. -/
def AnchoredParentSyncBatch.IsNew (batch : AnchoredParentSyncBatch) : Prop :=
  batch = .new ∨ ∃ maxPending, batch = .withMaxPending maxPending

theorem AnchoredParentSyncBatch.IsNew.bounds {batch : AnchoredParentSyncBatch}
    (h : batch.IsNew) : 0 < batch.maxPending ∧ batch.parents = [] := by
  rcases h with rfl | ⟨maxPending, rfl⟩
  · exact ⟨by decide, rfl⟩
  · exact ⟨lt_of_lt_of_le Nat.one_pos (le_max_right _ _), rfl⟩

/-- Over every sequence of calls on a new batch, with syncs and reports that fail
anywhere, the pending directories stay within the limit, and every flush is orderly.  When
a last flush returns, whatever was recorded was synced after that by a sync that returned,
and each call that returned had its directories recorded. -/
theorem syncBatch_complete
    (fsync : List SyncEvent → AnchoredParent → CheckPoResult Unit)
    {batch : AnchoredParentSyncBatch} (hnew : batch.IsNew) (calls : List BatchCall) :
    (BatchCall.runAll fsync calls ⟨batch, []⟩).batch.parents.length ≤ batch.maxPending ∧
    (∀ progress before, ∃ events, FlushOrderly fsync before
      (AnchoredParentSyncBatch.flushWithProgress fsync progress before).2 events) ∧
    ∀ progress after, AnchoredParentSyncBatch.flushWithProgress fsync progress
        (BatchCall.runAll fsync calls ⟨batch, []⟩) = (.ok (), after) →
      (∀ front parent back, after.history = front ++ .synced parent :: back →
        fsync front parent = .ok ()) ∧
      (∀ front parent back, after.history = front ++ .recorded parent :: back →
        ∃ other, other.sameDirectory parent = true ∧ .synced other ∈ back) ∧
      ∀ earlier call later m, calls = earlier ++ call :: later →
        BatchCall.run fsync call (BatchCall.runAll fsync earlier ⟨batch, []⟩) = (.ok (), m) →
        ∃ events, after.history =
            (BatchCall.runAll fsync earlier ⟨batch, []⟩).history ++ events ∧
          ∀ parent ∈ call.parents, .recorded parent ∈ events := by
  rcases hnew.bounds with ⟨hlimit, hempty⟩
  have hstart := SyncState.Sound.start hempty
  have hcalls := @BatchCall.runAll_after fsync _ hlimit calls _ hstart
  refine ⟨hcalls.sound.bounded, flush_orderly fsync, fun progress after hrun => ?_⟩
  rcases (AnchoredParentSyncBatch.flush_noted progress).run_ok hcalls hrun with
    ⟨hafter, hdrained⟩
  refine ⟨?_, ?_, ?_⟩
  · rcases hafter.events with ⟨events, hevents, hconfirmed, -⟩
    rw [List.nil_append] at hevents
    rw [hevents]
    exact hconfirmed
  · intro front parent back hhistory
    have hnone : ¬ Outstanding SyncEvent.Records SyncEvent.Syncs after.history
        parent.identity := fun hout => by
      have hpending := hafter.sound.covered _ hout
      rw [hdrained] at hpending
      exact List.not_mem_nil hpending
    rcases discharged_of_not_outstanding hnone hhistory ⟨parent, rfl, rfl⟩ with
      ⟨later, hlater, other, rfl, hidentity⟩
    exact ⟨other, by rw [AnchoredParent.sameDirectory, beq_iff_eq, hidentity], hlater⟩
  · rintro earlier call later m rfl hcall
    have hearlier := (@BatchCall.runAll_after fsync _ hlimit earlier _ hstart).sound
    have hnoted := (BatchCall.run_noted hlimit call _).run_ok (BatchCall.noted_self hearlier) hcall
    have hlater := @BatchCall.runAll_after fsync _ hlimit later _ hnoted.sound
    have hlast := (AnchoredParentSyncBatch.flush_noted progress).run_ok
      (BatchCall.noted_self hcalls.sound) hrun
    rcases hnoted.events with ⟨events, hevents, -, hrecorded⟩
    rcases hlater.events with ⟨more, hmore, -⟩
    rcases hlast.1.events with ⟨last, hlast, -⟩
    refine ⟨events ++ more ++ last, ?_, fun parent hparent => ?_⟩
    · rw [hlast, BatchCall.runAll_append, BatchCall.runAll, hcall, hmore, hevents,
        List.append_assoc, List.append_assoc, List.append_assoc]
    · exact List.mem_append_left _ (List.mem_append_left _ (hrecorded parent hparent))

namespace Sample

/-- The first sync of the first directory fails, and all others return. -/
def faltering (history : List SyncEvent) (parent : AnchoredParent) : CheckPoResult Unit :=
  if parent.identity.inode = 1 ∧ .failed parent ∉ history then
    .error (.io "repository" "Input/output error")
  else .ok ()

def outer : AnchoredParent := ⟨["repository"], ⟨1, 1⟩⟩
def inner : AnchoredParent := ⟨["repository", "objects"], ⟨1, 2⟩⟩

/-- Two directories in a batch that holds one: the second call fails once and is repeated. -/
def crowdedCalls : List BatchCall := [.record outer, .record inner, .record inner]

def lastFlush : Except CheckPoError Unit × SyncState :=
  AnchoredParentSyncBatch.flushWithProgress faltering (fun _ _ _ => .ok ())
    (BatchCall.runAll faltering crowdedCalls ⟨.withMaxPending 1, []⟩)

end Sample

/-- The second call syncs the first directory in vain and fails, the third syncs it, and the
flush at the end syncs the second directory. -/
theorem syncBatch_complete_faltering :
    Sample.lastFlush.1 = .ok () ∧ .failed Sample.outer ∈ Sample.lastFlush.2.history ∧
      .synced Sample.inner ∈ Sample.lastFlush.2.history ∧
      (∀ front parent back, Sample.lastFlush.2.history = front ++ .synced parent :: back →
        Sample.faltering front parent = .ok ()) ∧
      ∀ front parent back, Sample.lastFlush.2.history = front ++ .recorded parent :: back →
        ∃ other, other.sameDirectory parent = true ∧ .synced other ∈ back := by
  have hreturns : Sample.lastFlush.1 = .ok () := by decide +kernel
  have hlast := (syncBatch_complete Sample.faltering (Or.inr ⟨1, rfl⟩) Sample.crowdedCalls).2.2
    (fun _ _ _ => .ok ()) Sample.lastFlush.2 (Prod.ext hreturns rfl)
  exact ⟨hreturns, by decide +kernel, by decide +kernel, hlast.1, hlast.2.1⟩

end CheckPo
