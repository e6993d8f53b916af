/-
Binary search in a list, with a comparison that may fail: on values that the comparison
orders, it finds what a search from the front finds.  Nothing here names the repository.
-/
import Mathlib

namespace CheckPo

section Search

variable {ε α : Type} (compare : α → Except ε Ordering) (values : List α)

/-- The halving loop over the indices from `low` to `high`. -/
def searchBetween (low high : Nat) : Except ε (Option α) :=
  if low < high then
    match values[low + (high - low) / 2]? with
    | none => .ok none
    | some value =>
        match compare value with
        | .error error => .error error
        | .ok .lt => searchBetween (low + (high - low) / 2 + 1) high
        | .ok .gt => searchBetween low (low + (high - low) / 2)
        | .ok .eq => .ok (some value)
  else .ok none
termination_by high - low

def binarySearchBy : Except ε (Option α) := searchBetween compare values 0 values.length

/-- The smaller values come first, and at most one is equal. -/
def OrderedBy (order : α → Ordering) : Prop :=
  values.Pairwise fun left right => order left = .lt ∨ order right = .gt

variable {compare values} {order : α → Ordering}

/-- Everything below `low` is smaller, everything from `high` on is greater. -/
structure Narrowed (values : List α) (order : α → Ordering) (low high : Nat) : Prop where
  smaller : ∀ index value, index < low → values[index]? = some value → order value = .lt
  greater : ∀ index value, high ≤ index → values[index]? = some value → order value = .gt

theorem OrderedBy.getElem? (h : OrderedBy values order) {first second : Nat} {left right : α}
    (hlt : first < second) (hleft : values[first]? = some left)
    (hright : values[second]? = some right) : order left = .lt ∨ order right = .gt := by
  rcases List.getElem?_eq_some_iff.mp hleft with ⟨hfirst, rfl⟩
  rcases List.getElem?_eq_some_iff.mp hright with ⟨hsecond, rfl⟩
  exact List.pairwise_iff_getElem.mp h first second hfirst hsecond hlt

namespace Narrowed

variable {low high middle : Nat} {value : α}

theorem raise (h : Narrowed values order low high) (hordered : OrderedBy values order)
    (hvalue : values[middle]? = some value) (hsmaller : order value = .lt) :
    Narrowed values order (middle + 1) high where
  smaller index other hindex hother := by
    rcases Nat.lt_succ_iff_lt_or_eq.mp hindex with hlt | rfl
    · rcases hordered.getElem? hlt hother hvalue with hless | hgreater
      · exact hless
      · rw [hsmaller] at hgreater
        cases hgreater
    · rw [hvalue, Option.some.injEq] at hother
      exact hother ▸ hsmaller
  greater := h.greater

theorem lower (h : Narrowed values order low high) (hordered : OrderedBy values order)
    (hvalue : values[middle]? = some value) (hgreater : order value = .gt) :
    Narrowed values order low middle where
  smaller := h.smaller
  greater index other hindex hother := by
    rcases Nat.eq_or_lt_of_le hindex with rfl | hlt
    · rw [hvalue, Option.some.injEq] at hother
      exact hother ▸ hgreater
    · rcases hordered.getElem? hlt hvalue hother with hless | hmore
      · rw [hgreater] at hless
        cases hless
      · exact hmore

/-- Nothing is left between the bounds. -/
theorem find?_eq_none (h : Narrowed values order low high) (hclosed : high ≤ low) :
    values.find? (fun value => order value == .eq) = none := by
  rw [List.find?_eq_none]
  intro value hvalue
  rcases List.mem_iff_getElem?.mp hvalue with ⟨index, hindex⟩
  rcases Nat.lt_or_ge index low with hlt | hge
  · rw [h.smaller index value hlt hindex]
    decide
  · rw [h.greater index value (hclosed.trans hge) hindex]
    decide

end Narrowed

theorem find?_eq_some_of_eq (hordered : OrderedBy values order) {middle : Nat} {value : α}
    (hvalue : values[middle]? = some value) (hequal : order value = .eq) :
    values.find? (fun value => order value == .eq) = some value := by
  rcases List.getElem?_eq_some_iff.mp hvalue with ⟨hmiddle, hget⟩
  rw [List.find?_eq_some_iff_getElem]
  refine ⟨by rw [hequal]; rfl, middle, hmiddle, hget, ?_⟩
  intro index hindex
  have hother : values[index]? = some values[index] := List.getElem?_eq_getElem _
  rcases hordered.getElem? hindex hother hvalue with hless | hgreater
  · rw [hless]
    rfl
  · rw [hequal] at hgreater
    cases hgreater

theorem searchBetween_eq (hcompare : ∀ value ∈ values, compare value = .ok (order value))
    (hordered : OrderedBy values order) {low high : Nat} (hhigh : high ≤ values.length)
    (h : Narrowed values order low high) :
    searchBetween compare values low high =
      .ok (values.find? fun value => order value == .eq) := by
  induction low, high using searchBetween.induct compare values with
  | case1 low high hlow hnone =>
      have hmiddle := List.getElem?_eq_none_iff.mp hnone
      omega
  | case2 low high hlow value hvalue error herror =>
      rw [hcompare value (List.mem_of_getElem? hvalue)] at herror
      cases herror
  | case3 low high hlow value hvalue hresult ih =>
      have horder := hresult
      rw [hcompare value (List.mem_of_getElem? hvalue), Except.ok.injEq] at horder
      rw [searchBetween, if_pos hlow, hvalue]
      simp only [hresult]
      exact ih hhigh (h.raise hordered hvalue horder)
  | case4 low high hlow value hvalue hresult ih =>
      have horder := hresult
      rw [hcompare value (List.mem_of_getElem? hvalue), Except.ok.injEq] at horder
      rw [searchBetween, if_pos hlow, hvalue]
      simp only [hresult]
      exact ih (by omega) (h.lower hordered hvalue horder)
  | case5 low high hlow value hvalue hresult =>
      have horder := hresult
      rw [hcompare value (List.mem_of_getElem? hvalue), Except.ok.injEq] at horder
      rw [searchBetween, if_pos hlow, hvalue]
      simp only [hresult]
      rw [find?_eq_some_of_eq hordered hvalue horder]
  | case6 low high hlow =>
      rw [searchBetween, if_neg hlow, h.find?_eq_none (Nat.not_lt.mp hlow)]

theorem binarySearchBy_eq (hcompare : ∀ value ∈ values, compare value = .ok (order value))
    (hordered : OrderedBy values order) :
    binarySearchBy compare values = .ok (values.find? fun value => order value == .eq) := by
  apply searchBetween_eq hcompare hordered (le_refl _)
  constructor
  · intro index value hindex
    exact absurd hindex (Nat.not_lt_zero index)
  · intro index value hindex hvalue
    rw [List.getElem?_eq_none hindex] at hvalue
    cases hvalue

end Search

section Keys

variable {α β : Type} [LinearOrder β]

/-- How a key stands to the one that is looked for. -/
def ordering (key wanted : β) : Ordering :=
  if key < wanted then .lt else if wanted < key then .gt else .eq

theorem ordering_eq_iff {key wanted : β} : ordering key wanted = .eq ↔ key = wanted := by
  rw [ordering]
  split_ifs with hless hmore
  · exact iff_of_false nofun hless.ne
  · exact iff_of_false nofun hmore.ne'
  · exact iff_of_true rfl (le_antisymm (not_lt.mp hmore) (not_lt.mp hless))

theorem orderedBy_of_increasing {values : List α} {keyOf : α → β}
    (h : values.Pairwise fun left right => keyOf left < keyOf right) (wanted : β) :
    OrderedBy values fun value => ordering (keyOf value) wanted := by
  apply h.imp
  intro left right hlt
  rcases lt_or_ge (keyOf left) wanted with hless | hge
  · left
    exact if_pos hless
  · right
    have hmore := hge.trans_lt hlt
    exact (if_neg hmore.asymm).trans (if_pos hmore)

end Keys

end CheckPo
