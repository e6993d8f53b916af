/-
Inversion rules for computations that may fail: what each step of a `do` block
in `Except` returned when the block returned, and the same for the monadic list
traversals.  Nothing here names the repository.
-/
import Mathlib

namespace CheckPo

universe u v

variable {ε : Type u} {α β : Type v}

@[simp] theorem except_bind_ok (value : α) (next : α → Except ε β) :
    (Except.ok value >>= next) = next value := rfl

@[simp] theorem except_bind_error (error : ε) (next : α → Except ε β) :
    (Except.error error >>= next) = .error error := rfl

@[simp] theorem except_bind_eq_ok {first : Except ε α} {next : α → Except ε β}
    {value : β} :
    (first >>= next) = .ok value ↔
      ∃ middle, first = .ok middle ∧ next middle = .ok value := by
  cases first with
  | error error => simp
  | ok middle => simp

@[simp] theorem except_map_eq_ok {first : Except ε α} {f : α → β} {value : β} :
    (f <$> first) = .ok value ↔ ∃ middle, first = .ok middle ∧ f middle = value := by
  cases first with
  | error error => simp [Functor.map, Except.map]
  | ok middle => simp [Functor.map, Except.map]

@[simp] theorem except_pure_eq_ok {value result : α} :
    (pure value : Except ε α) = .ok result ↔ value = result := by
  change (Except.ok value : Except ε α) = .ok result ↔ _
  rw [Except.ok.injEq]

/-- A guard that fails when its condition holds. -/
@[simp] theorem except_guard_eq_ok {p : Prop} [Decidable p] {error : ε}
    {rest : Except ε α} {value : α} :
    (if p then .error error else rest) = .ok value ↔ ¬ p ∧ rest = .ok value := by
  by_cases hp : p <;> simp [hp]

@[simp] theorem except_ensure_eq_ok {p : Prop} [Decidable p] {error : ε}
    {rest : Except ε α} {value : α} :
    (if p then rest else .error error) = .ok value ↔ p ∧ rest = .ok value := by
  by_cases hp : p <;> simp [hp]

theorem mapM_eq_ok_iff {α β : Type} {f : α → Except ε β} {values : List α}
    {results : List β} :
    values.mapM f = .ok results ↔
      List.Forall₂ (fun value result => f value = .ok result) values results := by
  induction values generalizing results with
  | nil =>
      simp only [List.mapM_nil, except_pure_eq_ok, List.forall₂_nil_left_iff]
      exact eq_comm
  | cons head tail ih =>
      simp only [List.mapM_cons, except_bind_eq_ok, except_pure_eq_ok, ih]
      constructor
      · rintro ⟨first, hfirst, rest, hrest, rfl⟩
        exact .cons hfirst hrest
      · rintro (_ | ⟨hfirst, hrest⟩)
        exact ⟨_, hfirst, _, hrest, rfl⟩

theorem forM_eq_ok_iff {α : Type} {f : α → Except ε PUnit} {values : List α}
    {result : PUnit} :
    values.forM f = .ok result ↔ ∀ value ∈ values, f value = .ok ⟨⟩ := by
  induction values with
  | nil => simp [List.forM_eq_forM, List.forM_nil]
  | cons head tail ih =>
      rw [List.forM_eq_forM] at ih ⊢
      rw [List.forM_cons, except_bind_eq_ok, ih, List.forall_mem_cons]
      exact ⟨fun ⟨_, hhead, htail⟩ => ⟨hhead, htail⟩,
        fun ⟨hhead, htail⟩ => ⟨⟨⟩, hhead, htail⟩⟩

/-- A traversal of a permutation returns a permutation of the results. -/
theorem mapM_perm {α β : Type} {f : α → Except ε β} {values reordered : List α}
    (hperm : reordered.Perm values) {results : List β} (h : values.mapM f = .ok results) :
    ∃ results', reordered.mapM f = .ok results' ∧ results'.Perm results := by
  rw [mapM_eq_ok_iff] at h
  obtain ⟨results', hresults, hreordered⟩ := List.perm_comp_forall₂ hperm h
  exact ⟨results', mapM_eq_ok_iff.mpr hresults, hreordered⟩

theorem mapM_ok_of_forall {α β : Type} {f : α → Except ε β} {values : List α}
    (h : ∀ value ∈ values, ∃ result, f value = .ok result) :
    ∃ results, values.mapM f = .ok results := by
  induction values with
  | nil => exact ⟨[], rfl⟩
  | cons head tail ih =>
      obtain ⟨first, hfirst⟩ := h head List.mem_cons_self
      obtain ⟨rest, hrest⟩ := ih fun value hvalue =>
        h value (List.mem_cons_of_mem head hvalue)
      refine ⟨first :: rest, ?_⟩
      rw [mapM_eq_ok_iff] at hrest ⊢
      exact .cons hfirst hrest

/-! What holds of a result, and of an error. -/

def Ends {α : Type v} (result : Except ε α) (good : α → Prop) (bad : ε → Prop) : Prop :=
  match result with
  | .ok value => good value
  | .error error => bad error

namespace Ends

variable {good : β → Prop} {middle good' : α → Prop} {bad bad' : ε → Prop}

theorem bind {first : Except ε α} {next : α → Except ε β} (hfirst : Ends first middle bad)
    (hnext : ∀ value, middle value → Ends (next value) good bad) :
    Ends (first >>= next) good bad := by
  cases first with
  | error error => exact hfirst
  | ok value => exact hnext value hfirst

theorem mono {result : Except ε α} (h : Ends result middle bad)
    (hgood : ∀ value, middle value → good' value) (hbad : ∀ error, bad error → bad' error) :
    Ends result good' bad' := by
  cases result with
  | error error => exact hbad error h
  | ok value => exact hgood value h

/-- A guard that fails when its condition holds. -/
theorem guard {p : Prop} [Decidable p] {error : ε} {rest : Except ε β}
    (hfails : p → bad error) (hrest : ¬ p → Ends rest good bad) :
    Ends (if p then .error error else rest) good bad := by
  by_cases hp : p
  · rw [if_pos hp]
    exact hfails hp
  · rw [if_neg hp]
    exact hrest hp

/-- The invariant speaks of what the fold has passed. -/
theorem foldlM {α : Type v} {β : Type} {step : α → β → Except ε α} {bad : ε → Prop}
    {values : List β} {start : α} (inv : List β → α → Prop) (hstart : inv [] start)
    (hstep : ∀ passed value rest state, values = passed ++ value :: rest → inv passed state →
      Ends (step state value) (inv (passed ++ [value])) bad) :
    Ends (values.foldlM step start) (inv values) bad := by
  suffices h : ∀ rest passed state, values = passed ++ rest → inv passed state →
      Ends (rest.foldlM step state) (inv values) bad from h values [] start rfl hstart
  intro rest
  induction rest with
  | nil =>
      intro passed state hvalues hinv
      rw [List.append_nil] at hvalues
      exact hvalues ▸ hinv
  | cons value rest ih =>
      intro passed state hvalues hinv
      rw [List.foldlM_cons]
      apply bind (hstep passed value rest state hvalues hinv)
      intro next hnext
      exact ih (passed ++ [value]) next (by rw [hvalues, List.append_assoc]; rfl) hnext

end Ends

theorem mapM_ok_eq_map {α β : Type} {f : α → Except ε β} {g : α → β}
    {values : List α} (h : ∀ value ∈ values, f value = .ok (g value)) :
    values.mapM f = .ok (values.map g) := by
  rw [mapM_eq_ok_iff, List.forall₂_map_right_iff, List.forall₂_same]
  exact h

end CheckPo
