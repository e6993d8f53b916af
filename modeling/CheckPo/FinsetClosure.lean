/-
Sets that a computation gathers and sets that grow round by round until nothing is
added.  Nothing here names the repository.
-/
import CheckPo.ExceptRules

namespace CheckPo

variable {ε : Type} {α β : Type}

/-! Gathering. -/

section Gathering

variable [DecidableEq α]

/-- What each element contributes is added to a set. -/
def gatherInto (contributes : β → Except ε (Finset α)) (values : List β) (start : Finset α) :
    Except ε (Finset α) :=
  values.foldlM (fun gathered value => do return gathered ∪ (← contributes value)) start

theorem gatherInto_eq_ok {contributes : β → Except ε (Finset α)} {values : List β}
    {start gathered : Finset α} :
    gatherInto contributes values start = .ok gathered ↔
      (∀ value ∈ values, ∃ part, contributes value = .ok part) ∧
        ∀ element, element ∈ gathered ↔ element ∈ start ∨
          ∃ value ∈ values, ∃ part, contributes value = .ok part ∧ element ∈ part := by
  induction values generalizing start with
  | nil =>
      simp only [gatherInto, List.foldlM_nil, except_pure_eq_ok, List.not_mem_nil, false_and,
        exists_false, or_false, false_implies, implies_true, true_and]
      exact ⟨fun h => h ▸ fun _ => Iff.rfl, fun h => Finset.ext fun element => (h element).symm⟩
  | cons head rest ih =>
      simp only [gatherInto] at ih
      simp only [gatherInto, List.foldlM_cons, except_bind_eq_ok, except_pure_eq_ok,
        List.forall_mem_cons, List.exists_mem_cons_iff, ih]
      constructor
      · rintro ⟨middle, ⟨part, hpart, rfl⟩, hrest, hmem⟩
        refine ⟨⟨⟨part, hpart⟩, hrest⟩, fun element => ?_⟩
        rw [hmem, Finset.mem_union, or_assoc]
        simp only [hpart, Except.ok.injEq, exists_eq_left']
      · rintro ⟨⟨⟨part, hpart⟩, hrest⟩, hmem⟩
        refine ⟨start ∪ part, ⟨part, hpart, rfl⟩, hrest, fun element => ?_⟩
        rw [hmem, Finset.mem_union, or_assoc]
        simp only [hpart, Except.ok.injEq, exists_eq_left']

/-- Two sets gathered side by side. -/
theorem foldlM_union_pair_eq_ok {first second : β → Except ε (Finset α)} {values : List β}
    {start gathered : Finset α × Finset α} :
    values.foldlM (fun sets value => do
        let left ← first value
        let right ← second value
        return (sets.1 ∪ left, sets.2 ∪ right)) start = .ok gathered ↔
      gatherInto first values start.1 = .ok gathered.1 ∧
        gatherInto second values start.2 = .ok gathered.2 := by
  induction values generalizing start with
  | nil =>
      simp only [gatherInto, List.foldlM_nil, except_pure_eq_ok]
      exact Prod.ext_iff
  | cons head rest ih =>
      simp only [gatherInto] at ih
      simp only [gatherInto, List.foldlM_cons, except_bind_eq_ok, except_pure_eq_ok]
      constructor
      · rintro ⟨middle, ⟨left, hleft, right, hright, rfl⟩, hrest⟩
        exact ⟨⟨_, ⟨left, hleft, rfl⟩, (ih.mp hrest).1⟩, _, ⟨right, hright, rfl⟩, (ih.mp hrest).2⟩
      · rintro ⟨⟨_, ⟨left, hleft, rfl⟩, hfirst⟩, _, ⟨right, hright, rfl⟩, hsecond⟩
        exact ⟨_, ⟨left, hleft, right, hright, rfl⟩, ih.mpr ⟨hfirst, hsecond⟩⟩

theorem subset_gatherInto {contributes : β → Except ε (Finset α)} {values : List β}
    {start gathered : Finset α} (h : gatherInto contributes values start = .ok gathered) :
    start ⊆ gathered :=
  fun element helement => ((gatherInto_eq_ok.mp h).2 element).mpr (Or.inl helement)

end Gathering

/-! Inserting one by one, where a test reads what was inserted before. -/

section Inserting

variable [DecidableEq α]

def insertWhere (test : Finset α → α → Bool) (values : List α) (start : Finset α) : Finset α :=
  values.foldl (fun current value =>
    if test current value = true then insert value current else current) start

variable {test : Finset α → α → Bool}

theorem subset_insertWhere (values : List α) (start : Finset α) :
    start ⊆ insertWhere test values start := by
  induction values generalizing start with
  | nil => exact Finset.Subset.refl start
  | cons head rest ih =>
      rw [insertWhere, List.foldl_cons, ← insertWhere]
      split
      · exact (Finset.subset_insert head start).trans (ih _)
      · exact ih start

theorem insertWhere_forall {P : α → Prop} {values : List α} {start : Finset α}
    (hstep : ∀ current : Finset α, (∀ element ∈ current, P element) →
      ∀ value ∈ values, test current value = true → P value)
    (hstart : ∀ element ∈ start, P element) :
    ∀ element ∈ insertWhere test values start, P element := by
  induction values generalizing start with
  | nil => exact hstart
  | cons head rest ih =>
      have hrest : ∀ current : Finset α, (∀ element ∈ current, P element) →
          ∀ value ∈ rest, test current value = true → P value :=
        fun current hcurrent value hvalue =>
          hstep current hcurrent value (List.mem_cons_of_mem head hvalue)
      rw [insertWhere, List.foldl_cons, ← insertWhere]
      split
      · next htest =>
          apply ih hrest
          intro element helement
          rcases Finset.mem_insert.mp helement with rfl | hold
          · exact hstep start hstart element List.mem_cons_self htest
          · exact hstart element hold
      · exact ih hrest hstart

/-- Where nothing was added no test succeeded on a new element. -/
theorem mem_of_insertWhere_eq {values : List α} {start : Finset α}
    (h : insertWhere test values start = start) {value : α} (hvalue : value ∈ values)
    (htest : test start value = true) : value ∈ start := by
  induction values with
  | nil => exact absurd hvalue List.not_mem_nil
  | cons head rest ih =>
      rw [insertWhere, List.foldl_cons, ← insertWhere] at h
      rcases List.mem_cons.mp hvalue with rfl | hrest
      · rw [if_pos htest] at h
        exact h ▸ subset_insertWhere rest _ (Finset.mem_insert_self value start)
      · split at h
        · have hgrown := @subset_insertWhere _ _ test rest (insert head start)
          rw [h] at hgrown
          have hhead : insert head start = start :=
            Finset.Subset.antisymm hgrown (Finset.subset_insert head start)
          rw [hhead] at h
          exact ih h hrest
        · exact ih h hrest
end Inserting

/-! Growing. -/

/-- Rounds until one adds nothing, at most a given number of them. -/
def settle (step : Finset α → Except ε (Finset α)) : Nat → Finset α → Except ε (Finset α)
  | 0, current => .ok current
  | rounds + 1, current => do
      let next ← step current
      if next.card = current.card then return next else settle step rounds next

variable {step : Finset α → Except ε (Finset α)} {start final : Finset α}

theorem exists_settle (hstep : ∀ current, ∃ next, step current = .ok next) :
    ∀ (rounds : Nat) (start : Finset α), ∃ final, settle step rounds start = .ok final
  | 0, start => ⟨start, rfl⟩
  | rounds + 1, start => by
      rcases hstep start with ⟨next, hnext⟩
      rw [settle, hnext, except_bind_ok]
      split
      · exact ⟨next, rfl⟩
      · exact exists_settle hstep rounds next

theorem settle_invariant {P : Finset α → Prop}
    (hstep : ∀ current next, P current → step current = .ok next → P next) :
    ∀ {rounds : Nat} {start : Finset α}, P start → settle step rounds start = .ok final → P final
  | 0, start, hstart, h => by
      rw [settle, Except.ok.injEq] at h
      exact h ▸ hstart
  | rounds + 1, start, hstart, h => by
      rw [settle, except_bind_eq_ok] at h
      rcases h with ⟨next, hnext, h⟩
      have hkept := hstep start next hstart hnext
      split at h
      · rw [except_pure_eq_ok] at h
        exact h ▸ hkept
      · exact settle_invariant hstep hkept h

/-- As many rounds as there are elements to add reach a set to which nothing is added. -/
theorem settle_fixed {limit : Finset α}
    (hstep : ∀ current next, current ⊆ limit → step current = .ok next →
      current ⊆ next ∧ next ⊆ limit) :
    ∀ {rounds : Nat} {start : Finset α}, start ⊆ limit → limit.card < rounds + start.card →
      settle step rounds start = .ok final →
        step final = .ok final ∧ start ⊆ final ∧ final ⊆ limit
  | 0, start, hstart, hrounds, _ => by
      have hcard := Finset.card_le_card hstart
      omega
  | rounds + 1, start, hstart, hrounds, h => by
      rw [settle, except_bind_eq_ok] at h
      rcases h with ⟨next, hnext, h⟩
      rcases hstep start next hstart hnext with ⟨hgrow, hbound⟩
      split at h
      · next hcard =>
          rw [except_pure_eq_ok] at h
          have heq : start = next := Finset.eq_of_subset_of_card_le hgrow hcard.le
          subst heq
          subst h
          exact ⟨hnext, hgrow, hstart⟩
      · next hcard =>
          have hlt := Finset.card_le_card hgrow
          rcases settle_fixed hstep hbound (by omega) h with ⟨hfixed, hnextFinal, hfinal⟩
          exact ⟨hfixed, hgrow.trans hnextFinal, hfinal⟩

end CheckPo
