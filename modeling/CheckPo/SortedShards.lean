/-
Finite sets kept as strictly increasing lists, one for each value of a key, and
binary search in such lists.  Nothing here names the repository.
-/
import Mathlib

namespace CheckPo

theorem insertIdx_length_append {α : Type} (below above : List α) (value : α) :
    (below ++ above).insertIdx below.length value = below ++ value :: above := by
  induction below with
  | nil => rfl
  | cons head tail ih =>
      rw [List.cons_append, List.length_cons, List.insertIdx_succ_cons, ih, List.cons_append]

section Search

variable {α : Type} [LinearOrder α]

/-- `binary_search` in a strictly increasing list: `ok` with the position of the
value, or `error` with the position where inserting it keeps the order. -/
def binarySearch (values : List α) (value : α) : Except Nat Nat :=
  let index := (values.takeWhile fun other => decide (other < value)).length
  if values[index]? = some value then .ok index else .error index

/-- A sorted list around a value: what lies below it, the value if it is there, and
what lies above. -/
theorem exists_split {values : List α} (hsorted : values.Pairwise (· < ·)) (value : α) :
    ∃ below above, (∀ other ∈ below, other < value) ∧ (∀ other ∈ above, value < other) ∧
      (values = below ++ above ∨ values = below ++ value :: above) := by
  induction values with
  | nil => exact ⟨[], [], by simp, by simp, Or.inl rfl⟩
  | cons head tail ih =>
      obtain ⟨hhead, htail⟩ := List.pairwise_cons.mp hsorted
      rcases lt_trichotomy head value with hlt | heq | hgt
      · obtain ⟨below, above, hbelow, habove, hsplit⟩ := ih htail
        refine ⟨head :: below, above, List.forall_mem_cons.mpr ⟨hlt, hbelow⟩, habove, ?_⟩
        rcases hsplit with rfl | rfl
        · exact Or.inl rfl
        · exact Or.inr rfl
      · subst heq
        exact ⟨[], tail, by simp, hhead, Or.inr rfl⟩
      · refine ⟨[], head :: tail, by simp, ?_, Or.inl rfl⟩
        exact List.forall_mem_cons.mpr ⟨hgt, fun other hother => hgt.trans (hhead other hother)⟩

theorem takeWhile_below {below above : List α} {value : α}
    (hbelow : ∀ other ∈ below, other < value) (habove : ∀ other ∈ above, ¬ other < value) :
    (below ++ above).takeWhile (fun other => decide (other < value)) = below := by
  rw [List.takeWhile_append_of_pos (by simpa using hbelow)]
  cases above with
  | nil => simp
  | cons head tail => simp [habove head List.mem_cons_self]

theorem binarySearch_found {below above : List α} {value : α}
    (hbelow : ∀ other ∈ below, other < value) (habove : ∀ other ∈ above, value < other) :
    binarySearch (below ++ value :: above) value = .ok below.length := by
  have habove' : ∀ other ∈ value :: above, ¬ other < value :=
    List.forall_mem_cons.mpr ⟨lt_irrefl value, fun other hother => (habove other hother).asymm⟩
  rw [binarySearch, takeWhile_below hbelow habove', if_pos (by simp)]

theorem binarySearch_missing {below above : List α} {value : α}
    (hbelow : ∀ other ∈ below, other < value) (habove : ∀ other ∈ above, value < other) :
    binarySearch (below ++ above) value = .error below.length := by
  rw [binarySearch, takeWhile_below hbelow fun other hother => (habove other hother).asymm,
    if_neg]
  rw [List.getElem?_append_right (le_refl _), Nat.sub_self]
  intro hvalue
  exact lt_irrefl value (habove value (List.mem_of_getElem? hvalue))

/-- The search succeeds exactly on members. -/
theorem binarySearch_isOk {values : List α} (hsorted : values.Pairwise (· < ·)) (value : α) :
    (binarySearch values value).isOk = true ↔ value ∈ values := by
  obtain ⟨below, above, hbelow, habove, rfl | rfl⟩ := exists_split hsorted value
  · rw [binarySearch_missing hbelow habove]
    have hnot : value ∉ below ++ above := by
      intro hmem
      rcases List.mem_append.mp hmem with hmem | hmem
      · exact lt_irrefl value (hbelow value hmem)
      · exact lt_irrefl value (habove value hmem)
    simp [hnot, Except.isOk, Except.toBool]
  · rw [binarySearch_found hbelow habove]
    simp [Except.isOk, Except.toBool]

/-- Strictly increasing lists with the same members are equal. -/
theorem eq_of_increasing {left right : List α} (hleft : left.Pairwise (· < ·))
    (hright : right.Pairwise (· < ·)) (h : ∀ value, value ∈ left ↔ value ∈ right) :
    left = right :=
  List.Perm.eq_of_pairwise (fun _ _ _ _ hlt hgt => absurd hlt hgt.asymm) hleft hright
    ((List.perm_ext_iff_of_nodup (hleft.imp fun hlt => hlt.ne)
      (hright.imp fun hlt => hlt.ne)).mpr h)

/-- Inserting a missing value where the search ends. -/
theorem insertIdx_binarySearch {values : List α} (hsorted : values.Pairwise (· < ·))
    (value : α) (hvalue : value ∉ values) :
    ∃ index, binarySearch values value = .error index ∧
      (values.insertIdx index value).Pairwise (· < ·) ∧
      ∀ other, other ∈ values.insertIdx index value ↔ other = value ∨ other ∈ values := by
  obtain ⟨below, above, hbelow, habove, rfl | rfl⟩ := exists_split hsorted value
  · refine ⟨below.length, binarySearch_missing hbelow habove, ?_, ?_⟩
    · rw [insertIdx_length_append]
      obtain ⟨hbelowSorted, haboveSorted, hacross⟩ := List.pairwise_append.mp hsorted
      refine List.pairwise_append.mpr ⟨hbelowSorted, List.pairwise_cons.mpr
        ⟨habove, haboveSorted⟩, fun left hleft right hright => ?_⟩
      rcases List.mem_cons.mp hright with rfl | hright
      · exact hbelow left hleft
      · exact hacross left hleft right hright
    · intro other
      rw [List.mem_insertIdx (by simp)]
  · exact absurd (by simp) hvalue

/-- Removing a value where the search finds it. -/
theorem eraseIdx_binarySearch {values : List α} (hsorted : values.Pairwise (· < ·))
    {value : α} (hvalue : value ∈ values) :
    ∃ index, binarySearch values value = .ok index ∧
      (values.eraseIdx index).Pairwise (· < ·) ∧
      ∀ other, other ∈ values.eraseIdx index ↔ other ≠ value ∧ other ∈ values := by
  obtain ⟨below, above, hbelow, habove, rfl | rfl⟩ := exists_split hsorted value
  · rcases List.mem_append.mp hvalue with hmem | hmem
    · exact absurd (hbelow value hmem) (lt_irrefl value)
    · exact absurd (habove value hmem) (lt_irrefl value)
  · refine ⟨below.length, binarySearch_found hbelow habove,
      hsorted.sublist (List.eraseIdx_sublist _ _), ?_⟩
    have herase : (below ++ value :: above).eraseIdx below.length = below ++ above := by
      rw [List.eraseIdx_append_of_length_le (le_refl _), Nat.sub_self, List.eraseIdx_cons_zero]
    intro other
    rw [herase]
    simp only [List.mem_append, List.mem_cons]
    constructor
    · rintro (hother | hother)
      · exact ⟨(hbelow other hother).ne, Or.inl hother⟩
      · exact ⟨(habove other hother).ne', Or.inr (Or.inr hother)⟩
    · rintro ⟨hne, hother | rfl | hother⟩
      · exact Or.inl hother
      · exact absurd rfl hne
      · exact Or.inr hother

end Search

section Shards

variable {α ι : Type} [LinearOrder α] [DecidableEq ι] (key : α → ι)

/-- The members of a set with one key, in increasing order. -/
def shard (ids : Finset α) (index : ι) : List α :=
  (ids.filter fun id => key id = index).sort (· ≤ ·)

variable {key} {ids : Finset α} {index : ι}

@[simp] theorem mem_shard {id : α} : id ∈ shard key ids index ↔ id ∈ ids ∧ key id = index := by
  simp [shard]

theorem shard_increasing (ids : Finset α) (index : ι) :
    (shard key ids index).Pairwise (· < ·) :=
  (Finset.sortedLT_sort _).pairwise

theorem shard_empty : shard key (∅ : Finset α) index = [] := by
  simp [shard]

/-- A strictly increasing list of exactly these members is the shard. -/
theorem eq_shard {values : List α} (hsorted : values.Pairwise (· < ·))
    (hmem : ∀ id, id ∈ values ↔ id ∈ ids ∧ key id = index) : values = shard key ids index :=
  eq_of_increasing hsorted (shard_increasing ids index) fun id => by rw [hmem, mem_shard]

theorem shard_eq_nil_iff : shard key ids index = [] ↔ ∀ id ∈ ids, key id ≠ index := by
  rw [List.eq_nil_iff_forall_not_mem]
  simp

/-- The shards determine the set. -/
theorem eq_of_shards (key : α → ι) {left right : Finset α}
    (h : ∀ index, shard key left index = shard key right index) : left = right := by
  ext id
  have hid : id ∈ shard key left (key id) ↔ id ∈ shard key right (key id) := by rw [h]
  rw [mem_shard, mem_shard] at hid
  simpa using hid

/-- Only the shard of the key changes. -/
theorem shard_insert_of_ne {id : α} (h : key id ≠ index) :
    shard key (insert id ids) index = shard key ids index := by
  rw [shard, shard, Finset.filter_insert, if_neg h]

theorem shard_erase_of_ne {id : α} (h : key id ≠ index) :
    shard key (ids.erase id) index = shard key ids index := by
  apply eq_shard (shard_increasing _ _)
  intro other
  rw [mem_shard, Finset.mem_erase]
  constructor
  · exact fun ⟨⟨_, hother⟩, hkey⟩ => ⟨hother, hkey⟩
  · exact fun ⟨hother, hkey⟩ => ⟨⟨fun heq => h (heq ▸ hkey), hother⟩, hkey⟩

theorem shard_insert (key : α → ι) {id : α} (hid : id ∉ ids) :
    ∃ position, binarySearch (shard key ids (key id)) id = .error position ∧
      (shard key ids (key id)).insertIdx position id = shard key (insert id ids) (key id) := by
  obtain ⟨position, hsearch, hsorted, hmem⟩ :=
    insertIdx_binarySearch (shard_increasing ids (key id)) id (by simp [hid])
  refine ⟨position, hsearch, eq_shard hsorted fun other => ?_⟩
  rw [hmem, mem_shard, Finset.mem_insert]
  constructor
  · rintro (rfl | ⟨hother, hkey⟩)
    · exact ⟨Or.inl rfl, rfl⟩
    · exact ⟨Or.inr hother, hkey⟩
  · rintro ⟨rfl | hother, hkey⟩
    · exact Or.inl rfl
    · exact Or.inr ⟨hother, hkey⟩

theorem shard_erase (key : α → ι) {id : α} (hid : id ∈ ids) :
    ∃ position, binarySearch (shard key ids (key id)) id = .ok position ∧
      (shard key ids (key id)).eraseIdx position = shard key (ids.erase id) (key id) := by
  obtain ⟨position, hsearch, hsorted, hmem⟩ :=
    eraseIdx_binarySearch (shard_increasing ids (key id)) (mem_shard.mpr ⟨hid, rfl⟩)
  refine ⟨position, hsearch, eq_shard hsorted fun other => ?_⟩
  rw [hmem, mem_shard, Finset.mem_erase, and_assoc]

theorem length_shard_insert (key : α → ι) {id : α} (hid : id ∉ ids) :
    (shard key (insert id ids) (key id)).length = (shard key ids (key id)).length + 1 := by
  have hnot : id ∉ ids.filter fun other => key other = key id := fun hmem =>
    hid (Finset.mem_filter.mp hmem).1
  rw [shard, shard, Finset.length_sort, Finset.length_sort, Finset.filter_insert, if_pos rfl,
    Finset.card_insert_of_notMem hnot]

theorem length_shard_le_of_subset {left right : Finset α} (h : left ⊆ right) :
    (shard key left index).length ≤ (shard key right index).length := by
  rw [shard, shard, Finset.length_sort, Finset.length_sort]
  exact Finset.card_le_card (Finset.filter_subset_filter _ h)

theorem sum_length_shard [Fintype ι] (key : α → ι) (ids : Finset α) :
    ∑ index, (shard key ids index).length = ids.card := by
  simp only [shard, Finset.length_sort]
  exact (Finset.card_eq_sum_card_fiberwise fun id _ => Finset.mem_coe.mpr
    (Finset.mem_univ (key id))).symm

end Shards

end CheckPo
