/-
Triples for computations with a state that survives failure.  `Triple pre
program post fail` says what a run from a state with `pre` leaves behind: `post`
of the value and the state when it returns, `fail` of the state when it throws.
Nothing here names the repository.
-/
import Mathlib

namespace CheckPo

section Triples

variable {ε σ α β : Type}

def Triple (pre : σ → Prop) (program : ExceptT ε (StateM σ) α)
    (post : α → σ → Prop) (fail : σ → Prop) : Prop :=
  ∀ state, pre state → match program state with
    | (.ok value, after) => post value after
    | (.error _, after) => fail after

namespace Triple

variable {pre : σ → Prop} {fail : σ → Prop} {program : ExceptT ε (StateM σ) α}

theorem weaken {pre' : σ → Prop} {post post' : α → σ → Prop} {fail' : σ → Prop}
    (h : Triple pre program post fail) (hpre : ∀ state, pre' state → pre state)
    (hpost : ∀ value state, post value state → post' value state)
    (hfail : ∀ state, fail state → fail' state) :
    Triple pre' program post' fail' := by
  intro state hstate
  have hrun := h state (hpre state hstate)
  split at hrun
  · exact hpost _ _ hrun
  · exact hfail _ hrun

theorem pure {post : α → σ → Prop} {value : α}
    (h : ∀ state, pre state → post value state) :
    Triple pre (pure value : ExceptT ε (StateM σ) α) post fail :=
  fun state hstate => h state hstate

theorem throw {post : α → σ → Prop} {error : ε}
    (h : ∀ state, pre state → fail state) :
    Triple pre (throw error : ExceptT ε (StateM σ) α) post fail :=
  fun state hstate => h state hstate

/-- A step that may fail and does not touch the state. -/
theorem lift {post : α → σ → Prop} {result : Except ε α}
    (hok : ∀ value state, result = .ok value → pre state → post value state)
    (hfail : ∀ error state, result = .error error → pre state → fail state) :
    Triple pre (liftM result : ExceptT ε (StateM σ) α) post fail := by
  intro state hstate
  cases result with
  | ok value => exact hok value state rfl hstate
  | error error => exact hfail error state rfl hstate

theorem bind {m : α → σ → Prop} {post : β → σ → Prop}
    {next : α → ExceptT ε (StateM σ) β} (h : Triple pre program m fail)
    (hnext : ∀ value, Triple (m value) (next value) post fail) :
    Triple pre (program >>= next) post fail := by
  intro state hstate
  have hrun := h state hstate
  have hbind : (program >>= next) state = match program state with
      | (.ok value, after) => next value after
      | (.error error, after) => (.error error, after) := by
    change (StateT.bind program (ExceptT.bindCont next)) state = _
    simp only [StateT.bind]
    rcases program state with ⟨_ | _, _⟩ <;> rfl
  rw [hbind]
  rcases hresult : program state with ⟨error | value, after⟩
  · rw [hresult] at hrun
    exact hrun
  · rw [hresult] at hrun
    exact hnext value after hrun

theorem get {post : σ → σ → Prop} (h : ∀ state, pre state → post state state) :
    Triple pre (get : ExceptT ε (StateM σ) σ) post fail :=
  fun state hstate => h state hstate

/-- A lifted step with a known value. -/
theorem bind_ok {post : β → σ → Prop} {value : α} {next : α → ExceptT ε (StateM σ) β}
    (h : Triple pre (next value) post fail) :
    Triple pre (liftM (Except.ok value : Except ε α) >>= next) post fail :=
  bind (m := fun result state => result = value ∧ pre state)
    (lift (fun _ _ hresult hstate => ⟨(Except.ok.inj hresult).symm, hstate⟩)
      fun _ _ herror _ => nomatch herror)
    fun _ state hstate => hstate.1 ▸ h state hstate.2

/-- Reading the state names it. -/
theorem get_bind {post : α → σ → Prop} {next : σ → ExceptT ε (StateM σ) α}
    (h : ∀ state, pre state → Triple (fun after => after = state) (next state) post fail) :
    Triple pre (MonadState.get >>= next) post fail := by
  refine bind (m := fun value after => pre value ∧ after = value)
    (get fun state hstate => ⟨hstate, rfl⟩) fun value => ?_
  intro state hstate
  exact h value hstate.1 state hstate.2

theorem set {post : PUnit → σ → Prop} {value : σ}
    (h : ∀ state, pre state → post ⟨⟩ value) :
    Triple pre (set value : ExceptT ε (StateM σ) PUnit) post fail :=
  fun state hstate => h state hstate

/-- A triple says nothing about states that violate its precondition. -/
theorem of_pre {post : α → σ → Prop} {p : Prop}
    (hp : ∀ state, pre state → p) (h : p → Triple pre program post fail) :
    Triple pre program post fail :=
  fun state hstate => h (hp state hstate) state hstate

/-- A triple may be shown for one initial state at a time. -/
theorem of_states {post : α → σ → Prop}
    (h : ∀ state, pre state → Triple (fun before => before = state) program post fail) :
    Triple pre program post fail :=
  fun state hstate => h state hstate state rfl

/-- A fact about some value may be used for the one it holds of. -/
theorem exists_pre {ι : Type} {P : ι → σ → Prop} {post : α → σ → Prop}
    (h : ∀ index, Triple (P index) program post fail) :
    Triple (fun state => ∃ index, P index state) program post fail :=
  fun state ⟨index, hstate⟩ => h index state hstate

theorem ite {post : α → σ → Prop} {p : Prop} [Decidable p]
    {other : ExceptT ε (StateM σ) α} (htrue : p → Triple pre program post fail)
    (hfalse : ¬ p → Triple pre other post fail) :
    Triple pre (if p then program else other) post fail := by
  by_cases hp : p
  · rw [if_pos hp]
    exact htrue hp
  · rw [if_neg hp]
    exact hfalse hp

/-- Two triples of one program hold together. -/
theorem and {pre' fail' : σ → Prop} {post post' : α → σ → Prop}
    (h : Triple pre program post fail) (h' : Triple pre' program post' fail') :
    Triple (fun state => pre state ∧ pre' state) program
      (fun value state => post value state ∧ post' value state)
      (fun state => fail state ∧ fail' state) := by
  intro state hstate
  have hleft := h state hstate.1
  have hright := h' state hstate.2
  rcases hrun : program state with ⟨error | value, after⟩
  · rw [hrun] at hleft hright
    exact ⟨hleft, hright⟩
  · rw [hrun] at hleft hright
    exact ⟨hleft, hright⟩

/-- What holds of the result of one run. -/
theorem run_ok {post : α → σ → Prop} (h : Triple pre program post fail)
    {state after : σ} {value : α} (hstate : pre state)
    (hrun : program state = (.ok value, after)) : post value after := by
  have hresult := h state hstate
  rw [hrun] at hresult
  exact hresult

theorem run_error {post : α → σ → Prop} (h : Triple pre program post fail)
    {state after : σ} {error : ε} (hstate : pre state)
    (hrun : program state = (.error error, after)) : fail after := by
  have hresult := h state hstate
  rw [hrun] at hresult
  exact hresult

/-- A run that cannot fail returns. -/
theorem returns {post : α → σ → Prop}
    (h : Triple pre program post fun _ => False) {state : σ} (hstate : pre state) :
    ∃ value after, program state = (.ok value, after) ∧ post value after := by
  have hresult := h state hstate
  rcases hrun : program state with ⟨error | value, after⟩
  · rw [hrun] at hresult
    exact hresult.elim
  · rw [hrun] at hresult
    exact ⟨value, after, rfl, hresult⟩

end Triple

end Triples

end CheckPo
