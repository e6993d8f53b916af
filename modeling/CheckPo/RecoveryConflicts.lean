/-
The groups in which the frontend shows the conflicts of a recovery: a file goes together
with its `.meta` companion.
-/
import CheckPo.FileTree

namespace CheckPo

structure RecoveryConflict where
  path : String
  sizeBytes : Nat
deriving DecidableEq

structure RecoveryConflictGroup where
  id : String
  label : String
  detail : String
  paths : List String
  sizeBytes : Nat
deriving DecidableEq

/-- `assetPath.split("/").at(-1) || assetPath`. -/
def lastSegment (path : String) : String :=
  match (path.toList.splitOn '/').getLast? with
  | none | some [] => path
  | some name => String.ofList name

section Grouping

-- `new Map(items.map((item) => [item.path, item])).get`
variable (byPath : String → Option RecoveryConflict)

/-- The group that an item opens, unless it is left to the group of its asset. -/
def conflictGroup (item : RecoveryConflict) : Option RecoveryConflictGroup :=
  match stripSuffix ".meta" item.path with
  | some assetPath =>
      if (byPath assetPath).isSome = true then none
      else some
        { id := assetPath
          label := lastSegment assetPath ++ "（Unity設定）"
          detail := item.path
          paths := [item.path]
          sizeBytes := item.sizeBytes }
  | none => match byPath (item.path ++ ".meta") with
    | some companion => some
        { id := item.path
          label := lastSegment item.path
          detail := item.path ++ " と Unity設定"
          paths := [item.path, companion.path]
          sizeBytes := item.sizeBytes + companion.sizeBytes }
    | none => some
        { id := item.path
          label := lastSegment item.path
          detail := item.path
          paths := [item.path]
          sizeBytes := item.sizeBytes }

/-- One turn of the loop; what a group has taken is consumed. -/
def groupConflict (state : Finset String × List RecoveryConflictGroup) (item : RecoveryConflict) :
    Finset String × List RecoveryConflictGroup :=
  if item.path ∈ state.1 then state
  else match conflictGroup byPath item with
    | none => state
    | some group => (state.1 ∪ group.paths.toFinset, state.2 ++ [group])

end Grouping

/-- The items in the order of `localeCompare`. -/
def recoveryConflictItems (localeCompare : String → String → Ordering)
    (conflicts : List RecoveryConflict) : List RecoveryConflict :=
  (conflicts.filter fun conflict => conflict.path != "").mergeSort fun left right =>
    localeCompare left.path right.path != .gt

def conflictByPath (items : List RecoveryConflict) (path : String) : Option RecoveryConflict :=
  items.reverse.find? fun item => item.path == path

def groupRecoveryConflicts (localeCompare : String → String → Ordering)
    (conflicts : List RecoveryConflict) : List RecoveryConflictGroup :=
  let items := recoveryConflictItems localeCompare conflicts
  (items.foldl (groupConflict (conflictByPath items)) (∅, [])).2

/-! Suffixes. -/

theorem stripSuffix_eq_some {suffix name base : String} :
    stripSuffix suffix name = some base ↔ name = base ++ suffix := by
  constructor
  · intro h
    rw [stripSuffix] at h
    split at h
    · next hsuffix =>
        rcases hsuffix with ⟨front, hfront⟩
        rw [Option.some.injEq, ← hfront, List.length_append, Nat.add_sub_cancel, List.take_left]
          at h
        apply String.toList_injective
        rw [← h, String.toList_append, String.toList_ofList, hfront]
    · cases h
  · rintro rfl
    exact stripSuffix_append suffix base

/-! Lookups. -/

theorem conflictByPath_eq_some {items : List RecoveryConflict} {path : String}
    {item : RecoveryConflict} (h : conflictByPath items path = some item) :
    item ∈ items ∧ item.path = path := by
  have hmem := List.mem_of_find?_eq_some h
  have hpath := List.find?_some h
  exact ⟨List.mem_reverse.mp hmem, eq_of_beq hpath⟩

theorem conflictByPath_isSome {items : List RecoveryConflict} {path : String} :
    (conflictByPath items path).isSome = true ↔ path ∈ items.map RecoveryConflict.path := by
  rw [conflictByPath, List.find?_isSome, List.mem_map]
  simp only [List.mem_reverse, beq_iff_eq]

section Items

variable {items : List RecoveryConflict} {item : RecoveryConflict} {group : RecoveryConflictGroup}

/-! One group. -/

theorem mem_group_paths (h : conflictGroup (conflictByPath items) item = some group)
    {path : String} :
    path ∈ group.paths ↔ path = item.path ∨
      (stripSuffix ".meta" item.path = none ∧ path = item.path ++ ".meta" ∧
        path ∈ items.map RecoveryConflict.path) := by
  rw [conflictGroup] at h
  split at h
  · next asset hasset =>
      split at h
      · cases h
      · rw [← Option.some.inj h, List.mem_singleton, hasset]
        simp only [reduceCtorEq, false_and, or_false]
  · next hasset =>
      split at h
      · next companion hcompanion =>
          rcases conflictByPath_eq_some hcompanion with ⟨hmem, hpath⟩
          rw [← Option.some.inj h, hasset]
          simp only [List.mem_cons, List.not_mem_nil, or_false, hpath, true_and]
          constructor
          · rintro (rfl | rfl)
            · exact Or.inl rfl
            · exact Or.inr ⟨rfl, hpath ▸ List.mem_map_of_mem hmem⟩
          · rintro (rfl | ⟨rfl, -⟩)
            · exact Or.inl rfl
            · exact Or.inr rfl
      · next hcompanion =>
          have hnone : item.path ++ ".meta" ∉ items.map RecoveryConflict.path := by
            rw [← conflictByPath_isSome, hcompanion]
            exact Bool.false_ne_true
          rw [← Option.some.inj h, List.mem_singleton, hasset]
          constructor
          · exact Or.inl
          · rintro (rfl | ⟨-, rfl, hin⟩)
            · rfl
            · exact absurd hin hnone

/-- An item opens no group exactly where its asset is an item. -/
theorem conflictGroup_eq_none :
    conflictGroup (conflictByPath items) item = none ↔
      ∃ asset, stripSuffix ".meta" item.path = some asset ∧
        asset ∈ items.map RecoveryConflict.path := by
  rw [conflictGroup]
  split
  · next asset hasset =>
      rw [hasset]
      simp only [Option.some.injEq, exists_eq_left', ← conflictByPath_isSome]
      split <;> simp_all
  · next hasset =>
      rw [hasset]
      split <;> simp

theorem conflictGroup_id (h : conflictGroup (conflictByPath items) item = some group) :
    (stripSuffix ".meta" item.path = none ∧ group.id = item.path) ∨
      (stripSuffix ".meta" item.path = some group.id ∧
        group.id ∉ items.map RecoveryConflict.path) := by
  rw [conflictGroup] at h
  split at h
  · next asset hasset =>
      split at h
      · cases h
      · next hnone =>
          rw [conflictByPath_isSome] at hnone
          rw [← Option.some.inj h]
          exact Or.inr ⟨hasset, hnone⟩
  · next hasset =>
      split at h
      · exact Or.inl ⟨hasset, Option.some.inj h ▸ rfl⟩
      · exact Or.inl ⟨hasset, Option.some.inj h ▸ rfl⟩

/-! All groups. -/

/-- What is consumed needs no group of its own, so that each item decides by itself. -/
theorem foldl_groupConflict (hdistinct : (items.map RecoveryConflict.path).Nodup) :
    (items.foldl (groupConflict (conflictByPath items)) (∅, [])).2 =
      items.filterMap (conflictGroup (conflictByPath items)) := by
  suffices hall : ∀ (rest passed : List RecoveryConflict)
      (state : Finset String × List RecoveryConflictGroup), items = passed ++ rest →
      state.2 = passed.filterMap (conflictGroup (conflictByPath items)) →
      (∀ path ∈ state.1, ∃ item ∈ passed, path = item.path ∨
        stripSuffix ".meta" item.path = none ∧ path = item.path ++ ".meta") →
      (rest.foldl (groupConflict (conflictByPath items)) state).2 =
        items.filterMap (conflictGroup (conflictByPath items)) from
    hall items [] (∅, []) rfl rfl (by simp)
  intro rest
  induction rest with
  | nil =>
      intro passed state hitems hgroups _
      rw [List.append_nil] at hitems
      rw [List.foldl_nil, hgroups, ← hitems]
  | cons item rest ih =>
      intro passed state hitems hgroups hconsumed
      have hnext : items = (passed ++ [item]) ++ rest := by simpa using hitems
      have hkept : ∀ path ∈ state.1, ∃ item' ∈ passed ++ [item], path = item'.path ∨
          stripSuffix ".meta" item'.path = none ∧ path = item'.path ++ ".meta" := by
        intro path hpath
        rcases hconsumed path hpath with ⟨other, hother, hcase⟩
        exact ⟨other, List.mem_append_left _ hother, hcase⟩
      rw [List.foldl_cons, groupConflict]
      split
      · next hin =>
          apply ih _ _ hnext ?_ hkept
          rcases hconsumed item.path hin with ⟨other, hother, hsame | ⟨-, hmeta⟩⟩
          · -- an item is not consumed before its turn under its own path
            rw [hitems, List.map_append, List.nodup_append] at hdistinct
            exact absurd hsame.symm (hdistinct.2.2 _ (List.mem_map_of_mem hother) _
              (List.mem_map_of_mem List.mem_cons_self))
          · have hnone : conflictGroup (conflictByPath items) item = none := by
              refine conflictGroup_eq_none.mpr ⟨other.path, stripSuffix_eq_some.mpr hmeta, ?_⟩
              rw [hitems]
              exact List.mem_map_of_mem (List.mem_append_left _ hother)
            rw [hgroups, List.filterMap_append, List.filterMap_cons_none hnone,
              List.filterMap_nil, List.append_nil]
      · split
        · next hnone =>
            apply ih _ _ hnext ?_ hkept
            rw [hgroups, List.filterMap_append, List.filterMap_cons_none hnone,
              List.filterMap_nil, List.append_nil]
        · next group hgroup =>
            apply ih _ _ hnext
            · rw [hgroups, List.filterMap_append, List.filterMap_cons_some hgroup,
                List.filterMap_nil]
            · intro path hpath
              rcases Finset.mem_union.mp hpath with hold | hnew
              · exact hkept path hold
              · rcases (mem_group_paths hgroup).mp (List.mem_toFinset.mp hnew) with
                  hown | ⟨hasset, hcompanion, -⟩
                · exact ⟨item, by simp, Or.inl hown⟩
                · exact ⟨item, by simp, Or.inr ⟨hasset, hcompanion⟩⟩

theorem nodup_group_paths (h : conflictGroup (conflictByPath items) item = some group) :
    group.paths.Nodup := by
  rw [conflictGroup] at h
  split at h
  · split at h
    · cases h
    · rw [← Option.some.inj h]
      exact List.nodup_singleton _
  · split at h
    · next companion hcompanion =>
        rw [← Option.some.inj h, List.nodup_cons, (conflictByPath_eq_some hcompanion).2,
          List.mem_singleton]
        refine ⟨fun heq => ?_, List.nodup_singleton _⟩
        have hlength := congrArg String.length heq
        simp at hlength
    · rw [← Option.some.inj h]
      exact List.nodup_singleton _

/-- Two items share no path, and their groups no name. -/
theorem groups_disjoint {left right : RecoveryConflict} {first second : RecoveryConflictGroup}
    (hleft : conflictGroup (conflictByPath items) left = some first)
    (hright : conflictGroup (conflictByPath items) right = some second)
    (hleftIn : left ∈ items) (hrightIn : right ∈ items) (hne : left.path ≠ right.path) :
    first.id ≠ second.id ∧ ∀ path ∈ first.paths, path ∉ second.paths := by
  have hopens : ∀ {item : RecoveryConflict} {group : RecoveryConflictGroup} {other : String},
      conflictGroup (conflictByPath items) item = some group →
      item.path = other ++ ".meta" → other ∉ items.map RecoveryConflict.path := by
    intro item group other hgroup hpath hother
    have hnone := conflictGroup_eq_none.mpr ⟨other, stripSuffix_eq_some.mpr hpath, hother⟩
    rw [hnone] at hgroup
    cases hgroup
  constructor
  · intro hid
    rcases conflictGroup_id hleft with ⟨-, hfirst⟩ | ⟨hfirst, hfirstNot⟩ <;>
      rcases conflictGroup_id hright with ⟨-, hsecond⟩ | ⟨hsecond, hsecondNot⟩
    · exact hne (by rw [← hfirst, hid, hsecond])
    · exact hsecondNot (hid ▸ hfirst ▸ List.mem_map_of_mem hleftIn)
    · exact hfirstNot (hid ▸ hsecond ▸ List.mem_map_of_mem hrightIn)
    · rw [stripSuffix_eq_some] at hfirst hsecond
      exact hne (by rw [hfirst, hid, hsecond])
  · intro path hpath hother
    rcases (mem_group_paths hleft).mp hpath with hfirst | ⟨-, hfirst, -⟩ <;>
      rcases (mem_group_paths hright).mp hother with hsecond | ⟨-, hsecond, -⟩
    · exact hne (by rw [← hfirst, hsecond])
    · exact hopens hleft (by rw [← hfirst, hsecond]) (List.mem_map_of_mem hrightIn)
    · exact hopens hright (by rw [← hsecond, hfirst]) (List.mem_map_of_mem hleftIn)
    · rw [hfirst] at hsecond
      apply hne
      have hlist := congrArg String.toList hsecond
      rw [String.toList_append, String.toList_append, List.append_cancel_right_eq] at hlist
      exact String.toList_injective hlist

end Items

/-! The partition. -/

section Partition

variable {localeCompare : String → String → Ordering} {conflicts : List RecoveryConflict}

/-- Every conflict is in one group once, and the groups have different names. -/
def IsPartition (groups : List RecoveryConflictGroup) (conflicts : List RecoveryConflict) : Prop :=
  (groups.flatMap RecoveryConflictGroup.paths).Perm (conflicts.map RecoveryConflict.path) ∧
    (groups.map RecoveryConflictGroup.id).Nodup

variable (hdistinct : (conflicts.map RecoveryConflict.path).Nodup)
  (hnonempty : ∀ conflict ∈ conflicts, conflict.path ≠ "")

include hnonempty in
theorem recoveryConflictItems_perm :
    (recoveryConflictItems localeCompare conflicts).Perm conflicts := by
  have hfilter : (conflicts.filter fun conflict => conflict.path != "") = conflicts := by
    rw [List.filter_eq_self]
    intro conflict hconflict
    exact bne_iff_ne.mpr (hnonempty conflict hconflict)
  rw [recoveryConflictItems, hfilter]
  exact List.mergeSort_perm _ _

include hdistinct hnonempty

theorem groupRecoveryConflicts_eq :
    groupRecoveryConflicts localeCompare conflicts =
      (recoveryConflictItems localeCompare conflicts).filterMap
        (conflictGroup (conflictByPath (recoveryConflictItems localeCompare conflicts))) := by
  apply foldl_groupConflict
  have hperm : (recoveryConflictItems localeCompare conflicts).Perm conflicts :=
    recoveryConflictItems_perm hnonempty
  exact (hperm.map RecoveryConflict.path).nodup_iff.mpr hdistinct

/-- Only the `.meta` file of a `.meta` file that is a conflict too is in no group. -/
theorem mem_groups_paths {path : String} :
    path ∈ (groupRecoveryConflicts localeCompare conflicts).flatMap RecoveryConflictGroup.paths ↔
      path ∈ conflicts.map RecoveryConflict.path ∧
        ∀ name, path = name ++ ".meta" ++ ".meta" →
          name ++ ".meta" ∉ conflicts.map RecoveryConflict.path := by
  have hperm : (recoveryConflictItems localeCompare conflicts).Perm conflicts :=
    recoveryConflictItems_perm hnonempty
  have hpaths : ∀ path, path ∈ conflicts.map RecoveryConflict.path ↔
      path ∈ (recoveryConflictItems localeCompare conflicts).map RecoveryConflict.path :=
    fun path => (hperm.map RecoveryConflict.path).mem_iff.symm
  simp only [groupRecoveryConflicts_eq hdistinct hnonempty, List.mem_flatMap, List.mem_filterMap,
    hpaths]
  constructor
  · rintro ⟨group, ⟨item, hitem, hgroup⟩, hin⟩
    rcases (mem_group_paths hgroup).mp hin with rfl | ⟨hasset, rfl, hcompanion⟩
    · refine ⟨List.mem_map_of_mem hitem, fun name hname hother => ?_⟩
      rw [conflictGroup_eq_none.mpr ⟨_, stripSuffix_eq_some.mpr hname, hother⟩] at hgroup
      cases hgroup
    · refine ⟨hcompanion, fun name hname _ => ?_⟩
      rw [← stripSuffix_eq_some, stripSuffix_append, Option.some.injEq] at hname
      rw [hname, stripSuffix_append] at hasset
      cases hasset
  · rintro ⟨hin, hchain⟩
    rcases List.mem_map.mp hin with ⟨item, hitem, rfl⟩
    rcases hgroup : conflictGroup
      (conflictByPath (recoveryConflictItems localeCompare conflicts)) item with _ | group
    · rcases conflictGroup_eq_none.mp hgroup with ⟨asset, hasset, hassetIn⟩
      rw [stripSuffix_eq_some] at hasset
      rcases List.mem_map.mp hassetIn with ⟨owner, howner, rfl⟩
      have hplain : stripSuffix ".meta" owner.path = none := by
        rw [Option.eq_none_iff_forall_ne_some]
        intro name hname
        rw [stripSuffix_eq_some] at hname
        exact hchain name (by rw [hasset, hname]) (hname ▸ hassetIn)
      rcases howned : conflictGroup
        (conflictByPath (recoveryConflictItems localeCompare conflicts)) owner with _ | group
      · rcases conflictGroup_eq_none.mp howned with ⟨name, hname, -⟩
        rw [hplain] at hname
        cases hname
      · exact ⟨group, ⟨owner, howner, howned⟩,
          (mem_group_paths howned).mpr (Or.inr ⟨hplain, hasset, hin⟩)⟩
    · exact ⟨group, ⟨item, hitem, hgroup⟩, (mem_group_paths hgroup).mpr (Or.inl rfl)⟩

theorem groups_pairwise :
    (groupRecoveryConflicts localeCompare conflicts).Pairwise fun first second =>
      first.id ≠ second.id ∧ ∀ path ∈ first.paths, path ∉ second.paths := by
  have hperm : (recoveryConflictItems localeCompare conflicts).Perm conflicts :=
    recoveryConflictItems_perm hnonempty
  have hnodup : ((recoveryConflictItems localeCompare conflicts).map
      RecoveryConflict.path).Nodup :=
    (hperm.map RecoveryConflict.path).nodup_iff.mpr hdistinct
  rw [groupRecoveryConflicts_eq hdistinct hnonempty, List.pairwise_filterMap]
  apply (List.pairwise_map.mp hnodup).imp_of_mem
  intro left right hleft hright hne first hfirst second hsecond
  exact groups_disjoint hfirst hsecond hleft hright hne

/-- The groups are a partition exactly where no conflict is the `.meta` file of another
one that is a `.meta` file itself. -/
theorem recoveryGroups_partition_iff :
    IsPartition (groupRecoveryConflicts localeCompare conflicts) conflicts ↔
      ∀ name, name ++ ".meta" ∈ conflicts.map RecoveryConflict.path →
        name ++ ".meta" ++ ".meta" ∉ conflicts.map RecoveryConflict.path := by
  have hpairwise : (groupRecoveryConflicts localeCompare conflicts).Pairwise fun first second =>
      first.id ≠ second.id ∧ ∀ path ∈ first.paths, path ∉ second.paths :=
    groups_pairwise hdistinct hnonempty
  have hids : ((groupRecoveryConflicts localeCompare conflicts).map
      RecoveryConflictGroup.id).Nodup :=
    List.pairwise_map.mpr (hpairwise.imp And.left)
  have hnodup : ((groupRecoveryConflicts localeCompare conflicts).flatMap
      RecoveryConflictGroup.paths).Nodup := by
    rw [List.nodup_flatMap]
    constructor
    · intro group hgroup
      rw [groupRecoveryConflicts_eq hdistinct hnonempty, List.mem_filterMap] at hgroup
      rcases hgroup with ⟨item, -, hitem⟩
      exact nodup_group_paths hitem
    · exact hpairwise.imp fun h => List.disjoint_left.mpr fun path hfirst => h.2 path hfirst
  rw [IsPartition, and_iff_left hids, List.perm_ext_iff_of_nodup hnodup hdistinct]
  simp only [mem_groups_paths hdistinct hnonempty, and_iff_left_iff_imp]
  constructor
  · intro hall name hname hcompanion
    exact hall _ hcompanion name rfl hname
  · rintro hchain path hpath name rfl hname
    exact hchain name hname hpath

end Partition

theorem recoveryGroups_partition_iff_pair :
    IsPartition (groupRecoveryConflicts compare [⟨"Assets/a.meta", 100⟩, ⟨"Assets/a", 900⟩])
        [⟨"Assets/a.meta", 100⟩, ⟨"Assets/a", 900⟩] ↔
      ∀ name, name ++ ".meta" ∈ ["Assets/a.meta", "Assets/a"] →
        name ++ ".meta" ++ ".meta" ∉ ["Assets/a.meta", "Assets/a"] :=
  recoveryGroups_partition_iff (by decide) (by decide)

/-- A conflict that no group shows. -/
theorem companion_of_companion_lost : ¬ IsPartition
    (groupRecoveryConflicts compare
      [⟨"Assets/a", 900⟩, ⟨"Assets/a.meta", 100⟩, ⟨"Assets/a.meta.meta", 50⟩])
    [⟨"Assets/a", 900⟩, ⟨"Assets/a.meta", 100⟩, ⟨"Assets/a.meta.meta", 50⟩] := by
  rintro ⟨hperm, -⟩
  have hin : "Assets/a.meta.meta" ∈ ["Assets/a", "Assets/a.meta", "Assets/a.meta.meta"] := by
    decide
  have hlost := hperm.mem_iff.mpr hin
  rw [mem_groups_paths (by decide) (by decide)] at hlost
  exact hlost.2 "Assets/a" rfl (by decide)

end CheckPo
