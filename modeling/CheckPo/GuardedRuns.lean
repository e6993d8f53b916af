/-
Triples that keep an invariant wherever a computation stops: at each of its writes, when it
fails and when it ends, where something more is known.  A computation whose writes only go
along a preorder keeps what the preorder keeps.  Nothing here names the repository.
-/
import CheckPo.Durable

namespace CheckPo

section Guarded

variable {σ τ ε α β : Type}

/-- From a state with `pre` the invariant holds at each write and at the end, and `post` of
the value that is returned. -/
def Guarded (inv pre : σ → Prop) (program : Durable σ ε α) (post : α → σ → Prop) : Prop :=
  CrashTriple (fun state => inv state ∧ pre state) program
    (fun value state => inv state ∧ post value state) (fun _ => inv) inv

namespace Guarded

variable {inv pre : σ → Prop} {program : Durable σ ε α} {post : α → σ → Prop}

theorem weaken {pre' : σ → Prop} {post' : α → σ → Prop} (h : Guarded inv pre program post)
    (hpre : ∀ state, inv state → pre' state → pre state)
    (hpost : ∀ value state, inv state → post value state → post' value state) :
    Guarded inv pre' program post' :=
  CrashTriple.weaken h (fun state hstate => ⟨hstate.1, hpre state hstate.1 hstate.2⟩)
    (fun value state hstate => ⟨hstate.1, hpost value state hstate.1 hstate.2⟩)
    (fun _ _ hstate => hstate) fun _ hstate => hstate

theorem implies (h : Guarded inv pre program post) {post' : α → σ → Prop}
    (hpost : ∀ value state, inv state → post value state → post' value state) :
    Guarded inv pre program post' :=
  h.weaken (fun _ _ hstate => hstate) hpost

/-- A computation that keeps more than is asked for. -/
theorem of_invariant {inv' pre' : σ → Prop} {post' : α → σ → Prop}
    (h : Guarded inv pre program post)
    (hpre : ∀ state, inv' state → pre' state → inv state ∧ pre state)
    (hinv : ∀ state, inv state → inv' state)
    (hpost : ∀ value state, inv state → post value state → post' value state) :
    Guarded inv' pre' program post' :=
  CrashTriple.weaken h (fun state hstate => hpre state hstate.1 hstate.2)
    (fun value state hstate => ⟨hinv state hstate.1, hpost value state hstate.1 hstate.2⟩)
    (fun _ => hinv) hinv

theorem pure {value : α} (h : ∀ state, inv state → pre state → post value state) :
    Guarded inv pre (pure value : Durable σ ε α) post :=
  CrashTriple.pure fun state hstate => ⟨hstate.1, h state hstate.1 hstate.2⟩

theorem fail {error : ε} : Guarded inv pre (Durable.lift (.error error) : Durable σ ε α) post :=
  fun _ hstate => ⟨List.forall_mem_nil _, hstate.1⟩

theorem bind {m : α → σ → Prop} {post : β → σ → Prop} {next : α → Durable σ ε β}
    (h : Guarded inv pre program m) (hnext : ∀ value, Guarded inv (m value) (next value) post) :
    Guarded inv pre (program >>= next) post :=
  CrashTriple.bind h hnext

theorem exists_pre {ι : Sort*} {family : ι → σ → Prop}
    (h : ∀ index, Guarded inv (family index) program post) :
    Guarded inv (fun state => ∃ index, family index state) program post := by
  rintro state ⟨hinv, index, hstate⟩
  exact h index state ⟨hinv, hstate⟩

/-- What does not depend on the state is known throughout. -/
theorem known {p : Prop} (h : p → Guarded inv pre program post) :
    Guarded inv (fun state => p ∧ pre state) program post :=
  fun state hstate => h hstate.2.1 state ⟨hstate.1, hstate.2.2⟩

/-- What a step that reads nothing returns is known afterwards. -/
theorem lift {result : Except ε α} (h : ∀ value state, result = .ok value → inv state →
    pre state → post value state) : Guarded inv pre (Durable.lift result) post :=
  CrashTriple.lift (fun value state heq hstate => ⟨hstate.1, h value state heq hstate.1 hstate.2⟩)
    fun _ _ _ hstate => hstate.1

theorem lift_bind {result : Except ε α} {next : α → Durable σ ε β} {post : β → σ → Prop}
    (h : ∀ value, result = .ok value → Guarded inv pre (next value) post) :
    Guarded inv pre (Durable.lift result >>= next) post := by
  intro state hstate
  rw [Durable.final, Durable.lift_bind_run]
  cases result with
  | ok value => exact h value rfl state hstate
  | error error => exact ⟨List.forall_mem_nil _, hstate.1⟩

theorem inspect {read : σ → Except ε α} (h : ∀ value state, read state = .ok value → inv state →
    pre state → post value state) : Guarded inv pre (Durable.inspect read) post :=
  CrashTriple.inspect (fun value state heq hstate => ⟨hstate.1, h value state heq hstate.1 hstate.2⟩)
    fun _ _ _ hstate => hstate.1

/-- What was read is known as long as nothing is written. -/
theorem inspect_bind {read : σ → Except ε α} {next : α → Durable σ ε β} {post : β → σ → Prop}
    (h : ∀ value, Guarded inv (fun state => pre state ∧ read state = .ok value) (next value)
      post) : Guarded inv pre (Durable.inspect read >>= next) post :=
  bind (inspect fun _ _ hread _ hstate => ⟨hstate, hread⟩) h

/-- What the state says of what was read remains known. -/
theorem inspect_fact (fact : α → Prop) {read : σ → Except ε α} {next : α → Durable σ ε β}
    {post : β → σ → Prop}
    (hfact : ∀ value state, inv state → pre state → read state = .ok value → fact value)
    (h : ∀ value, fact value → Guarded inv pre (next value) post) :
    Guarded inv pre (Durable.inspect read >>= next) post := by
  refine bind (m := fun value state => fact value ∧ pre state) ?_ fun value => known (h value)
  exact inspect fun value state hread hinv hpre => ⟨hfact value state hinv hpre hread, hpre⟩

theorem write {update : σ → σ} {post : Unit → σ → Prop}
    (h : ∀ state, inv state → pre state → inv (update state) ∧ post () (update state)) :
    Guarded inv pre (Durable.write update : Durable σ ε Unit) post :=
  CrashTriple.write fun state hstate => ⟨(h state hstate.1 hstate.2).1, h state hstate.1 hstate.2⟩

theorem ite {p : Prop} [Decidable p] {other : Durable σ ε α}
    (htrue : p → Guarded inv pre program post) (hfalse : ¬ p → Guarded inv pre other post) :
    Guarded inv pre (if p then program else other) post :=
  CrashTriple.ite htrue hfalse

theorem attempt {post' : Except ε α → σ → Prop} (h : Guarded inv pre program post)
    (hok : ∀ value state, inv state → post value state → post' (.ok value) state)
    (herror : ∀ error state, inv state → post' (.error error) state) :
    Guarded inv pre (Durable.attempt program) post' :=
  CrashTriple.attempt h (fun value state hstate => ⟨hstate.1, hok value state hstate.1 hstate.2⟩)
    fun error state hstate => ⟨hstate, herror error state hstate⟩

/-- What an attempted computation establishes where it succeeds. -/
theorem attempt_ok (h : Guarded inv pre program post) :
    Guarded inv pre (Durable.attempt program) fun result state =>
      ∀ value, result = .ok value → post value state := by
  apply h.attempt
  · intro value state _ hpost other heq
    exact Except.ok.inj heq ▸ hpost
  · exact fun _ _ _ _ heq => by cases heq

/-- A computation that is attempted and whose result is not looked at. -/
theorem attempt_any (h : Guarded inv pre program post) :
    Guarded inv pre (Durable.attempt program) fun _ _ => True :=
  h.attempt (fun _ _ _ _ => trivial) fun _ _ _ => trivial

/-- The precondition may be used one state at a time. -/
theorem of_state (h : ∀ before, inv before → pre before →
    Guarded inv (fun state => state = before) program post) : Guarded inv pre program post :=
  fun state hstate => h state hstate.1 hstate.2 state ⟨hstate.1, rfl⟩

/-- One round of a loop after the other. -/
theorem forM (loop : List β → σ → Prop) {body : β → Durable σ ε PUnit} {values : List β}
    (h : ∀ value rest, value :: rest <:+ values →
      Guarded inv (loop (value :: rest)) (body value) fun _ => loop rest) :
    Guarded inv (loop values) (values.forM body) fun _ => loop [] := by
  induction values with
  | nil => exact pure fun _ _ hstate => hstate
  | cons value rest ih =>
      exact bind (h value rest (List.suffix_refl _)) fun _ =>
        ih fun next others hsuffix => h next others (hsuffix.trans (List.suffix_cons _ _))

/-- A loop each of whose rounds establishes something that the others keep. -/
theorem forM_each {held : σ → Prop} (done : β → σ → Prop) {body : β → Durable σ ε PUnit}
    {values : List β}
    (h : ∀ front value rest, values = front ++ value :: rest → Guarded inv
      (fun state => held state ∧ ∀ before ∈ front, done before state) (body value)
      fun _ state => held state ∧ done value state ∧ ∀ before ∈ front, done before state) :
    Guarded inv held (values.forM body)
      fun _ state => held state ∧ ∀ value ∈ values, done value state := by
  -- What is left to do says what has been done.
  refine (forM (fun rest state => held state ∧ ∀ front, values = front ++ rest →
    ∀ before ∈ front, done before state) ?_).weaken ?_ ?_
  · rintro value rest ⟨front, heq⟩
    refine (h front value rest heq.symm).weaken
      (fun state _ hstate => ⟨hstate.1, hstate.2 front heq.symm⟩) ?_
    rintro _ state - ⟨hheld, hdone, hfront⟩
    refine ⟨hheld, fun other hother => ?_⟩
    rw [← heq, List.append_cons] at hother
    rw [← List.append_cancel_right hother, List.forall_mem_append]
    exact ⟨hfront, List.forall_mem_singleton.mpr hdone⟩
  · intro state _ hheld
    refine ⟨hheld, fun front heq => ?_⟩
    rw [List.self_eq_append_left.mp heq]
    exact List.forall_mem_nil _
  · intro _ state _ hstate
    exact ⟨hstate.1, hstate.2 values (List.append_nil values).symm⟩

/-- The same for a loop that hands a value on. -/
theorem foldlM_each {held : σ → Prop} (done : β → σ → Prop) {body : α → β → Durable σ ε α}
    {values : List β}
    (h : ∀ front value rest found, values = front ++ value :: rest → Guarded inv
      (fun state => held state ∧ ∀ before ∈ front, done before state) (body found value)
      fun _ state => held state ∧ done value state ∧ ∀ before ∈ front, done before state)
    (start : α) : Guarded inv held (values.foldlM body start)
      fun _ state => held state ∧ ∀ value ∈ values, done value state := by
  suffices haux : ∀ rest front found, values = front ++ rest → Guarded inv
      (fun state => held state ∧ ∀ before ∈ front, done before state) (rest.foldlM body found)
      fun _ state => held state ∧ ∀ value ∈ values, done value state from
    (haux values [] start rfl).weaken (fun _ _ hstate => ⟨hstate, List.forall_mem_nil _⟩)
      fun _ _ _ hstate => hstate
  intro rest
  induction rest with
  | nil =>
      intro front found heq
      rw [List.append_nil] at heq
      exact pure fun state _ hstate => heq ▸ hstate
  | cons value rest ih =>
      intro front found heq
      rw [List.foldlM_cons]
      refine bind (h front value rest found heq) fun next => ?_
      refine (ih (front ++ [value]) next
        (by rw [heq, List.append_assoc, List.singleton_append])).weaken
        (fun state _ hstate => ⟨hstate.1, ?_⟩) fun _ _ _ hstate => hstate
      rw [List.forall_mem_append]
      exact ⟨hstate.2.2, List.forall_mem_singleton.mpr hstate.2.1⟩

/-- The same for a loop that gathers values. -/
theorem mapM_each {held : σ → Prop} (done : β → σ → Prop) (result : β → α)
    {body : β → Durable σ ε α} {values : List β}
    (h : ∀ front value rest, values = front ++ value :: rest → Guarded inv
      (fun state => held state ∧ ∀ before ∈ front, done before state) (body value)
      fun found state => found = result value ∧ held state ∧ done value state ∧
        ∀ before ∈ front, done before state) :
    Guarded inv held (values.mapM body) fun found state =>
      found = values.map result ∧ held state ∧ ∀ value ∈ values, done value state := by
  suffices haux : ∀ rest front, values = front ++ rest → Guarded inv
      (fun state => held state ∧ ∀ before ∈ front, done before state)
      (List.mapM.loop body rest (front.map result).reverse)
      fun found state => found = values.map result ∧ held state ∧
        ∀ value ∈ values, done value state from
    (haux values [] rfl).weaken (fun _ _ hstate => ⟨hstate, List.forall_mem_nil _⟩)
      fun _ _ _ hstate => hstate
  intro rest
  induction rest with
  | nil =>
      intro front heq
      rw [List.append_nil] at heq
      rw [List.mapM.loop, List.reverse_reverse, heq]
      exact pure fun state _ hstate => ⟨rfl, hstate⟩
  | cons value rest ih =>
      intro front heq
      rw [List.mapM.loop]
      refine bind (h front value rest heq) fun found => ?_
      apply of_state
      rintro state hinv ⟨rfl, hheld, hdone, hfront⟩
      have hnext := ih (front ++ [value])
        (by rw [heq, List.append_assoc, List.singleton_append])
      rw [List.map_append, List.reverse_append] at hnext
      refine hnext.weaken ?_ fun _ _ _ hstate => hstate
      rintro _ - rfl
      rw [List.forall_mem_append]
      exact ⟨hheld, hfront, List.forall_mem_singleton.mpr hdone⟩

end Guarded

/-! Preorders. -/

/-- Every write of the computation leads to a state related to the one it began in. -/
def WritesAlong (relation : σ → σ → Prop) (program : Durable σ ε α) : Prop :=
  ∀ state, ∀ after ∈ (program.run state).1, relation state after

namespace WritesAlong

variable {relation : σ → σ → Prop} {program : Durable σ ε α}

theorem pure {value : α} : WritesAlong relation (pure value : Durable σ ε α) :=
  fun _ => List.forall_mem_nil _

theorem lift {result : Except ε α} : WritesAlong relation (Durable.lift result) :=
  fun _ => List.forall_mem_nil _

theorem inspect {read : σ → Except ε α} : WritesAlong relation (Durable.inspect read) :=
  fun _ => List.forall_mem_nil _

theorem write {update : σ → σ} (h : ∀ state, relation state (update state)) :
    WritesAlong relation (Durable.write update : Durable σ ε Unit) :=
  fun state => List.forall_mem_singleton.mpr (h state)

theorem attempt (h : WritesAlong relation program) : WritesAlong relation (Durable.attempt program) := h

theorem ite {p : Prop} [Decidable p] {other : Durable σ ε α} (htrue : WritesAlong relation program)
    (hfalse : WritesAlong relation other) : WritesAlong relation (if p then program else other) := by
  split
  · exact htrue
  · exact hfalse

/-- A write that has to be related only where something was read. -/
theorem inspect_bind {read : σ → Except ε α} {next : α → Durable σ ε β}
    (h : ∀ state value, read state = .ok value →
      ∀ after ∈ ((next value).run state).1, relation state after) :
    WritesAlong relation (Durable.inspect read >>= next) := by
  intro state
  rw [Durable.inspect_bind_run]
  split
  · next value hread => exact h state value hread
  · exact List.forall_mem_nil _

section Preorder

variable [IsPreorder σ relation]

theorem final (h : WritesAlong relation program) (state : σ) :
    relation state (program.final state) := by
  rcases List.mem_cons.mp (Durable.final_mem program state) with heq | hmem
  · rw [heq]
    exact refl_of relation state
  · exact h state _ hmem

theorem bind {next : α → Durable σ ε β} (h : WritesAlong relation program)
    (hnext : ∀ value, WritesAlong relation (next value)) : WritesAlong relation (program >>= next) := by
  intro state after hafter
  have hlast := h.final state
  rw [Durable.final] at hlast
  rcases hrun : program.run state with ⟨trace, error | value⟩
  · rw [Durable.bind_run_error hrun] at hafter
    exact h state after (by rw [hrun]; exact hafter)
  · rw [Durable.bind_run_ok hrun] at hafter
    rcases List.mem_append.mp hafter with hmem | hmem
    · exact h state after (by rw [hrun]; exact hmem)
    · rw [hrun] at hlast
      exact trans_of relation hlast (hnext value _ after hmem)

theorem forM {body : β → Durable σ ε PUnit} {values : List β}
    (h : ∀ value ∈ values, WritesAlong relation (body value)) : WritesAlong relation (values.forM body) := by
  induction values with
  | nil => exact pure
  | cons value rest ih =>
      exact bind (h value List.mem_cons_self) fun _ => ih fun other hother =>
        h other (List.mem_cons_of_mem _ hother)

end Preorder

/-- A computation on a component. -/
theorem zoom {part : τ → τ → Prop} {view : σ → τ} {update : τ → σ → σ} {program : Durable τ ε α}
    (h : WritesAlong part program)
    (hupdate : ∀ state after, part (view state) after → relation state (update after state)) :
    WritesAlong relation (Durable.zoom view update program) := by
  intro state after hafter
  rcases List.mem_map.mp hafter with ⟨found, hfound, rfl⟩
  exact hupdate state found (h (view state) found hfound)

/-- What the relation keeps is an invariant of the computation. -/
theorem guarded [IsPreorder σ relation] (h : WritesAlong relation program) {inv pre : σ → Prop}
    {post : α → σ → Prop}
    (hinv : ∀ state after, inv state → pre state → relation state after → inv after)
    (hpost : ∀ value state after, inv state → pre state → relation state after →
      post value after) : Guarded inv pre program post := by
  rintro state ⟨hstate, hpre⟩
  refine ⟨fun after hafter => hinv state after hstate hpre (h state after hafter), ?_⟩
  have hfinal := h.final state
  split
  · next value _ => exact ⟨hinv _ _ hstate hpre hfinal, hpost value _ _ hstate hpre hfinal⟩
  · exact hinv _ _ hstate hpre hfinal

end WritesAlong

end Guarded

end CheckPo
