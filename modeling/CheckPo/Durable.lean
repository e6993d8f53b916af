/-
Computations over durable state that may be cut short.  A computation records
the state after each of its writes, so a crash leaves any one of them; a crash
triple says what holds when the computation ends and wherever it is cut.
Nothing here names the repository.
-/
import Mathlib

namespace CheckPo

/-- A run gives the states after each write, in order, and the result. -/
structure Durable (σ ε α : Type) : Type where
  run : σ → List σ × Except ε α

namespace Durable

variable {σ τ ε α β : Type}

/-- The state that a trace leads to. -/
def last (state : σ) (trace : List σ) : σ := trace.getLastD state

@[simp] theorem last_nil (state : σ) : last state [] = state := rfl

@[simp] theorem last_singleton (state after : σ) : last state [after] = after := rfl

theorem last_append (state : σ) (first rest : List σ) :
    last state (first ++ rest) = last (last state first) rest := by
  cases rest with
  | nil => rw [List.append_nil, last_nil]
  | cons head tail =>
      simp only [last, List.getLastD_eq_getLast?, List.getLast?_append, List.getLast?_cons]
      rfl

/-- The state in which a computation ends. -/
def final (program : Durable σ ε α) (state : σ) : σ := last state (program.run state).1

theorem final_mem (program : Durable σ ε α) (state : σ) :
    program.final state ∈ state :: (program.run state).1 :=
  List.getLastD_mem_cons

def bind (first : Durable σ ε α) (next : α → Durable σ ε β) : Durable σ ε β where
  run state := match first.run state with
    | (trace, .ok value) =>
        let rest := (next value).run (last state trace)
        (trace ++ rest.1, rest.2)
    | (trace, .error error) => (trace, .error error)

instance : Monad (Durable σ ε) where
  pure value := ⟨fun _ => ([], .ok value)⟩
  bind := bind

/-- A step that reads nothing and may fail. -/
def lift (result : Except ε α) : Durable σ ε α := ⟨fun _ => ([], result)⟩

/-- Reading the state, which may fail. -/
def inspect (read : σ → Except ε α) : Durable σ ε α := ⟨fun state => ([], read state)⟩

/-- One durable write. -/
def write (update : σ → σ) : Durable σ ε Unit := ⟨fun state => ([update state], .ok ())⟩

/-- Run a computation and return its result instead of failing. -/
def attempt (program : Durable σ ε α) : Durable σ ε (Except ε α) where
  run state := ((program.run state).1, .ok (program.run state).2)

/-- A computation on one component of the state. -/
def zoom (view : σ → τ) (update : τ → σ → σ) (program : Durable τ ε α) :
    Durable σ ε α where
  run state := ((program.run (view state)).1.map fun part => update part state,
    (program.run (view state)).2)

theorem bind_run_ok {first : Durable σ ε α} {next : α → Durable σ ε β} {state : σ}
    {trace : List σ} {value : α} (h : first.run state = (trace, .ok value)) :
    (first >>= next).run state = (trace ++ ((next value).run (last state trace)).1,
      ((next value).run (last state trace)).2) := by
  change (bind first next).run state = _
  simp only [bind, h]

theorem bind_run_error {first : Durable σ ε α} {next : α → Durable σ ε β} {state : σ}
    {trace : List σ} {error : ε} (h : first.run state = (trace, .error error)) :
    (first >>= next).run state = (trace, .error error) := by
  change (bind first next).run state = _
  simp only [bind, h]

theorem mem_bind_run {first : Durable σ ε α} {next : α → Durable σ ε β} {state after : σ}
    (h : after ∈ (first.run state).1) : after ∈ ((first >>= next).run state).1 := by
  rcases hrun : first.run state with ⟨trace, error | value⟩
  · rw [bind_run_error hrun]
    rwa [hrun] at h
  · rw [bind_run_ok hrun]
    rw [hrun] at h
    exact List.mem_append_left _ h

@[simp] theorem pure_run (value : α) (state : σ) :
    (pure value : Durable σ ε α).run state = ([], .ok value) := rfl

@[simp] theorem lift_run (result : Except ε α) (state : σ) :
    (lift result : Durable σ ε α).run state = ([], result) := rfl

@[simp] theorem inspect_run (read : σ → Except ε α) (state : σ) :
    (inspect read).run state = ([], read state) := rfl

theorem write_bind_run (update : σ → σ) (next : Unit → Durable σ ε α) (state : σ) :
    (write update >>= next).run state = (update state :: ((next ()).run (update state)).1,
      ((next ()).run (update state)).2) := rfl

theorem inspect_bind_run (read : σ → Except ε α) (next : α → Durable σ ε β) (state : σ) :
    (inspect read >>= next).run state = match read state with
      | .ok value => (next value).run state
      | .error error => ([], .error error) := by
  cases hread : read state with
  | ok value =>
      rw [bind_run_ok (show (inspect read).run state = ([], .ok value) by rw [inspect_run, hread])]
      rfl
  | error error =>
      exact bind_run_error (by rw [inspect_run, hread])

theorem lift_bind_run (result : Except ε α) (next : α → Durable σ ε β) (state : σ) :
    (lift result >>= next).run state = match result with
      | .ok value => (next value).run state
      | .error error => ([], .error error) :=
  inspect_bind_run (fun _ => result) next state

end Durable

section CrashTriples

variable {σ τ ε α β : Type}

/-- From a state with `pre`, every state the computation passes through satisfies
`crash`, and it ends in `post` of its value or in `fail` of its error. -/
def CrashTriple (pre : σ → Prop) (program : Durable σ ε α) (post : α → σ → Prop)
    (fail : ε → σ → Prop) (crash : σ → Prop) : Prop :=
  ∀ state, pre state → (∀ after ∈ (program.run state).1, crash after) ∧
    match (program.run state).2 with
    | .ok value => post value (program.final state)
    | .error error => fail error (program.final state)

namespace CrashTriple

variable {pre : σ → Prop} {fail : ε → σ → Prop} {crash : σ → Prop}
variable {program : Durable σ ε α}

theorem weaken {pre' : σ → Prop} {post post' : α → σ → Prop} {fail' : ε → σ → Prop}
    {crash' : σ → Prop} (h : CrashTriple pre program post fail crash)
    (hpre : ∀ state, pre' state → pre state)
    (hpost : ∀ value state, post value state → post' value state)
    (hfail : ∀ error state, fail error state → fail' error state)
    (hcrash : ∀ state, crash state → crash' state) :
    CrashTriple pre' program post' fail' crash' := by
  intro state hstate
  obtain ⟨htrace, hresult⟩ := h state (hpre state hstate)
  refine ⟨fun after hafter => hcrash after (htrace after hafter), ?_⟩
  split at hresult
  · exact hpost _ _ hresult
  · exact hfail _ _ hresult

theorem pure {post : α → σ → Prop} {value : α} (h : ∀ state, pre state → post value state) :
    CrashTriple pre (pure value : Durable σ ε α) post fail crash :=
  fun state hstate => ⟨fun _ hafter => (nomatch hafter), h state hstate⟩

theorem bind {m : α → σ → Prop} {post : β → σ → Prop} {next : α → Durable σ ε β}
    (h : CrashTriple pre program m fail crash)
    (hnext : ∀ value, CrashTriple (m value) (next value) post fail crash) :
    CrashTriple pre (program >>= next) post fail crash := by
  intro state hstate
  obtain ⟨htrace, hresult⟩ := h state hstate
  rw [Durable.final] at hresult ⊢
  rcases hrun : program.run state with ⟨trace, error | value⟩
  · rw [hrun] at htrace hresult
    rw [Durable.bind_run_error hrun]
    exact ⟨htrace, hresult⟩
  · rw [hrun] at htrace hresult
    obtain ⟨hrest, hafter⟩ := hnext value _ hresult
    rw [Durable.bind_run_ok hrun, Durable.last_append]
    refine ⟨fun after hmem => ?_, hafter⟩
    rcases List.mem_append.mp hmem with hmem | hmem
    · exact htrace after hmem
    · exact hrest after hmem

theorem lift {post : α → σ → Prop} {result : Except ε α}
    (hok : ∀ value state, result = .ok value → pre state → post value state)
    (herror : ∀ error state, result = .error error → pre state → fail error state) :
    CrashTriple pre (Durable.lift result) post fail crash := by
  intro state hstate
  refine ⟨fun _ hafter => (nomatch hafter), ?_⟩
  cases result with
  | ok value => exact hok value state rfl hstate
  | error error => exact herror error state rfl hstate

theorem lift_error {post : α → σ → Prop} {error : ε} (h : ∀ state, pre state → fail error state) :
    CrashTriple pre (Durable.lift (.error error)) post fail crash :=
  fun state hstate => ⟨fun _ hafter => (nomatch hafter), h state hstate⟩

/-- Reading names what is read. -/
theorem inspect {post : α → σ → Prop} {read : σ → Except ε α}
    (hok : ∀ value state, read state = .ok value → pre state → post value state)
    (herror : ∀ error state, read state = .error error → pre state → fail error state) :
    CrashTriple pre (Durable.inspect read) post fail crash := by
  intro state hstate
  refine ⟨fun _ hafter => (nomatch hafter), ?_⟩
  change match read state with
    | .ok value => post value state
    | .error error => fail error state
  cases hread : read state with
  | ok value => exact hok value state hread hstate
  | error error => exact herror error state hread hstate

theorem inspect_ok {post : α → σ → Prop} {read : σ → α}
    (h : ∀ state, pre state → post (read state) state) :
    CrashTriple pre (Durable.inspect fun state => .ok (read state)) post fail crash :=
  fun state hstate => ⟨fun _ hafter => (nomatch hafter), h state hstate⟩

theorem write {post : Unit → σ → Prop} {update : σ → σ}
    (h : ∀ state, pre state → crash (update state) ∧ post () (update state)) :
    CrashTriple pre (Durable.write update) post fail crash :=
  fun state hstate => ⟨fun _ hafter => List.mem_singleton.mp hafter ▸ (h state hstate).1,
    (h state hstate).2⟩

theorem attempt {post : Except ε α → σ → Prop} {post' : α → σ → Prop}
    {fail' : ε → σ → Prop} (h : CrashTriple pre program post' fail' crash)
    (hok : ∀ value state, post' value state → post (.ok value) state)
    (herror : ∀ error state, fail' error state → post (.error error) state) :
    CrashTriple pre (Durable.attempt program) post fail crash := by
  intro state hstate
  obtain ⟨htrace, hresult⟩ := h state hstate
  refine ⟨htrace, ?_⟩
  change post (program.run state).2 (program.final state)
  cases hrun : (program.run state).2 with
  | ok value =>
      rw [hrun] at hresult
      exact hok value _ hresult
  | error error =>
      rw [hrun] at hresult
      exact herror error _ hresult

/-- The precondition may be used one state at a time. -/
theorem of_state {post : α → σ → Prop}
    (h : ∀ before, pre before →
      CrashTriple (fun state => state = before) program post fail crash) :
    CrashTriple pre program post fail crash :=
  fun state hstate => h state hstate state rfl

theorem ite {post : α → σ → Prop} {p : Prop} [Decidable p] {other : Durable σ ε α}
    (htrue : p → CrashTriple pre program post fail crash)
    (hfalse : ¬ p → CrashTriple pre other post fail crash) :
    CrashTriple pre (if p then program else other) post fail crash := by
  by_cases hp : p
  · rw [if_pos hp]
    exact htrue hp
  · rw [if_neg hp]
    exact hfalse hp

/-- A loop over a list keeps what one round of it keeps. -/
theorem forM {inv : List β → σ → Prop} {body : β → Durable σ ε PUnit}
    (h : ∀ value rest, CrashTriple (inv (value :: rest)) (body value)
      (fun _ => inv rest) fail crash) (values : List β) :
    CrashTriple (inv values) (values.forM body) (fun _ => inv []) fail crash := by
  induction values with
  | nil => exact pure fun _ hstate => hstate
  | cons value rest ih => exact bind (h value rest) fun _ => ih

/-- A computation that cannot fail returns. -/
theorem returns {post : α → σ → Prop}
    (h : CrashTriple pre program post (fun _ _ => False) crash) {state : σ}
    (hstate : pre state) :
    ∃ value, (program.run state).2 = .ok value ∧ post value (program.final state) := by
  obtain ⟨-, hresult⟩ := h state hstate
  split at hresult
  · next value hvalue => exact ⟨value, hvalue, hresult⟩
  · exact hresult.elim

end CrashTriple

/-! Runs: a sequence of invocations, each of which ends or is cut short. -/

/-- The states reached from `start` by invocations that `may` be made, each of which
ends or crashes after one of its writes, in a state that `crashes` admits. -/
inductive Reached {ι : Type} (invoke : ι → Durable σ ε α) (may : ι → σ → Prop)
    (crashes : σ → Prop) (start : σ) : σ → Prop
  | start : Reached invoke may crashes start start
  | ended {state : σ} {op : ι} (h : Reached invoke may crashes start state)
      (hmay : may op state) : Reached invoke may crashes start ((invoke op).final state)
  | crashed {state after : σ} {op : ι} (h : Reached invoke may crashes start state)
      (hmay : may op state) (hafter : after ∈ ((invoke op).run state).1)
      (hcrashes : crashes after) : Reached invoke may crashes start after

/-- An invariant that every invocation keeps, however it ends, holds of every reached
state. -/
theorem Reached.invariant {ι : Type} {invoke : ι → Durable σ ε α} {may : ι → σ → Prop}
    {crashes inv : σ → Prop} {start : σ} (hstart : inv start)
    (hinvoke : ∀ op, CrashTriple (fun state => inv state ∧ may op state) (invoke op)
      (fun _ => inv) (fun _ => inv) (fun after => crashes after → inv after))
    {state : σ} (h : Reached invoke may crashes start state) : inv state := by
  induction h with
  | start => exact hstart
  | ended _ hmay ih =>
      obtain ⟨-, hresult⟩ := hinvoke _ _ ⟨ih, hmay⟩
      split at hresult <;> exact hresult
  | crashed _ hmay hafter hcrashes ih =>
      exact (hinvoke _ _ ⟨ih, hmay⟩).1 _ hafter hcrashes

/-- An invariant that every write of an invocation keeps holds of every reached state. -/
theorem Reached.of_writes {ι : Type} {invoke : ι → Durable σ ε α} {may : ι → σ → Prop}
    {crashes inv : σ → Prop} {start : σ} (hstart : inv start)
    (hwrites : ∀ op state, inv state → may op state →
      ∀ after ∈ ((invoke op).run state).1, inv after)
    {state : σ} (h : Reached invoke may crashes start state) : inv state := by
  induction h with
  | start => exact hstart
  | @ended state op _ hmay ih =>
      rcases List.mem_cons.mp (Durable.final_mem (invoke op) state) with heq | hmem
      · rw [heq]
        exact ih
      · exact hwrites op state ih hmay _ hmem
  | crashed _ hmay hafter _ ih => exact hwrites _ _ ih hmay _ hafter

end CrashTriples

end CheckPo
