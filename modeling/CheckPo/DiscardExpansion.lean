/-
The paths that a discard takes: the requested ones and what they bring along.
-/
import CheckPo.PlanBuilding

namespace CheckPo

section Expanded

variable (tree : WorkingTree) (snapshotPaths : Finset TrackedUnityFilePath)

/-- The paths that a discard of the requested paths takes. -/
inductive Expanded (requested : List TrackedUnityFilePath) : TrackedUnityFilePath → Prop
  | requested {path} : path ∈ requested → Expanded requested path
  | companion {path part companion} : Expanded requested path →
      companionToDiscard tree snapshotPaths path = .ok part → companion ∈ part →
      Expanded requested companion
  | topology {path part required} : Expanded requested path → path ∈ snapshotPaths →
      requiredDiscardTopologyPaths tree path = .ok part → required ∈ part →
      Expanded requested required

end Expanded

variable {tree : WorkingTree} {snapshotPaths : Finset TrackedUnityFilePath}

theorem companion_of_mem {path companion : TrackedUnityFilePath}
    {part : Finset TrackedUnityFilePath}
    (h : companionToDiscard tree snapshotPaths path = .ok part) (hin : companion ∈ part) :
    unityAssetCompanionPath path = some companion := by
  have hempty : ∀ {part : Finset TrackedUnityFilePath}, ∅ = part → companion ∉ part :=
    fun heq => heq ▸ Finset.notMem_empty companion
  rw [companionToDiscard] at h
  split at h
  · exact absurd hin (hempty (Except.ok.inj h))
  · next found hfound =>
      have hsingle : {found} = part → companion = found := by
        rintro rfl
        exact Finset.mem_singleton.mp hin
      split at h
      · rw [hfound, hsingle (Except.ok.inj h)]
      · simp only [except_bind_eq_ok] at h
        rcases h with ⟨regular, -, h⟩
        split at h
        · rw [hfound, hsingle (except_pure_eq_ok.mp h)]
        · exact absurd hin (hempty (except_pure_eq_ok.mp h))

/-! One round. -/

/-- Both halves of a round only add what an element brings along. -/
theorem mem_discardRound {current next : Finset TrackedUnityFilePath}
    (h : discardRound tree snapshotPaths current = .ok next) {path : TrackedUnityFilePath}
    (hpath : path ∈ next) :
    path ∈ current ∨
      (∃ source ∈ current, ∃ part, companionToDiscard tree snapshotPaths source = .ok part ∧
        path ∈ part) ∨
      ∃ source, (source ∈ current ∨ ∃ first ∈ current, ∃ part,
          companionToDiscard tree snapshotPaths first = .ok part ∧ source ∈ part) ∧
        source ∈ snapshotPaths ∧
        ∃ part, requiredDiscardTopologyPaths tree source = .ok part ∧ path ∈ part := by
  rw [discardRound, except_bind_eq_ok] at h
  rcases h with ⟨middle, hmiddle, hnext⟩
  have hmemMiddle : ∀ element ∈ middle, element ∈ current ∨ ∃ source ∈ current, ∃ part,
      companionToDiscard tree snapshotPaths source = .ok part ∧ element ∈ part := by
    intro element helement
    simpa only [Finset.mem_sort] using ((gatherInto_eq_ok.mp hmiddle).2 element).mp helement
  rcases ((gatherInto_eq_ok.mp hnext).2 path).mp hpath with hold | ⟨source, hsource, part, hpart, hin⟩
  · rcases hmemMiddle path hold with hcurrent | hcompanion
    · exact Or.inl hcurrent
    · exact Or.inr (Or.inl hcompanion)
  · rw [Finset.mem_sort] at hsource
    by_cases hsnapshot : source ∈ snapshotPaths
    · rw [if_pos hsnapshot] at hpart
      exact Or.inr (Or.inr ⟨source, hmemMiddle source hsource, hsnapshot, part, hpart, hin⟩)
    · rw [if_neg hsnapshot, Except.ok.injEq] at hpart
      rw [← hpart] at hin
      exact absurd hin (Finset.notMem_empty path)

theorem subset_discardRound {current next : Finset TrackedUnityFilePath}
    (h : discardRound tree snapshotPaths current = .ok next) : current ⊆ next := by
  rw [discardRound, except_bind_eq_ok] at h
  rcases h with ⟨middle, hmiddle, hnext⟩
  exact (subset_gatherInto hmiddle).trans (subset_gatherInto hnext)

/-- A set to which a round adds nothing has everything that its elements bring along. -/
theorem discardRound_closed {final : Finset TrackedUnityFilePath}
    (h : discardRound tree snapshotPaths final = .ok final) :
    (∀ path ∈ final, ∃ part, companionToDiscard tree snapshotPaths path = .ok part ∧
        part ⊆ final) ∧
      ∀ path ∈ final, path ∈ snapshotPaths →
        ∃ part, requiredDiscardTopologyPaths tree path = .ok part ∧ part ⊆ final := by
  rw [discardRound, except_bind_eq_ok] at h
  rcases h with ⟨middle, hmiddle, hnext⟩
  have hsame : middle = final :=
    Finset.Subset.antisymm (subset_gatherInto hnext) (subset_gatherInto hmiddle)
  subst hsame
  have hcompanions := gatherInto_eq_ok.mp hmiddle
  have htopology := gatherInto_eq_ok.mp hnext
  constructor
  · intro path hpath
    rcases hcompanions.1 path ((Finset.mem_sort _).mpr hpath) with ⟨part, hpart⟩
    exact ⟨part, hpart, fun element helement => (hcompanions.2 element).mpr
      (Or.inr ⟨path, (Finset.mem_sort _).mpr hpath, part, hpart, helement⟩)⟩
  · intro path hpath hsnapshot
    rcases htopology.1 path ((Finset.mem_sort _).mpr hpath) with ⟨part, hpart⟩
    have hrequired := hpart
    rw [if_pos hsnapshot] at hrequired
    exact ⟨part, hrequired, fun element helement => (htopology.2 element).mpr
      (Or.inr ⟨path, (Finset.mem_sort _).mpr hpath, part, hpart, helement⟩)⟩

/-! The rounds end. -/

/-- The tracked paths that can be added at all are fewer than the rounds. -/
theorem exists_discardLimit (tree : WorkingTree) (snapshotPaths : Finset TrackedUnityFilePath)
    (selected : List TrackedUnityFilePath) :
    ∃ limit : Finset TrackedUnityFilePath, snapshotPaths ⊆ limit ∧ selected.toFinset ⊆ limit ∧
      (∀ path : TrackedUnityFilePath, path.segments ∈ tree.files.paths → path ∈ limit) ∧
      limit.card < discardRounds tree snapshotPaths selected := by
  classical
  have hinjective : Set.InjOn TrackedUnityFilePath.segments
      (Set.preimage TrackedUnityFilePath.segments ↑tree.files.paths) :=
    fun left _ right _ h => TrackedUnityFilePath.segments_injective h
  let standing := tree.files.paths.preimage TrackedUnityFilePath.segments hinjective
  have hstanding : standing.card ≤ tree.files.paths.card :=
    Finset.card_le_card_of_injOn TrackedUnityFilePath.segments
      (fun path hpath => Finset.mem_preimage.mp hpath)
      fun left _ right _ h => TrackedUnityFilePath.segments_injective h
  refine ⟨snapshotPaths ∪ selected.toFinset ∪ standing, ?_, ?_, ?_, ?_⟩
  · exact Finset.subset_union_left.trans Finset.subset_union_left
  · exact Finset.subset_union_right.trans Finset.subset_union_left
  · intro path hpath
    exact Finset.mem_union_right _ (Finset.mem_preimage.mpr hpath)
  · have hselected := selected.toFinset_card_le
    have hunion := Finset.card_union_le (snapshotPaths ∪ selected.toFinset) standing
    have hfirst := Finset.card_union_le snapshotPaths selected.toFinset
    simp only [discardRounds]
    omega

theorem segments_of_mem_walk {entry : Path} {path found : TrackedUnityFilePath}
    (h : entry ∈ tree.files.walk path.segments)
    (hfound : TrackedUnityFilePath.parse (joinParts entry) = .ok found) :
    found.segments = entry := by
  rcases FileTree.mem_below.mp (FileTree.mem_walk.mp h) with ⟨hentry, hstarts, hne⟩
  apply TrackedUnityFilePath.segments_of_parse hfound (tree.plain entry hentry)
  rintro rfl
  exact hne (List.prefix_nil.mp hstarts).symm

section Exact

variable (hexact : tree.ExactNames)
include hexact

theorem mem_paths_of_lookup {path : Path} {entry : TreeEntry ProjectFile}
    (h : tree.lookup path = some entry) : path ∈ tree.files.paths := by
  rw [tree.files.mem_paths, ← hexact, h]
  exact nofun

theorem mem_limit_of_companion {limit part : Finset TrackedUnityFilePath}
    {path companion : TrackedUnityFilePath} (hsnapshot : snapshotPaths ⊆ limit)
    (hstanding : ∀ path : TrackedUnityFilePath, path.segments ∈ tree.files.paths → path ∈ limit)
    (h : companionToDiscard tree snapshotPaths path = .ok part) (hcompanion : companion ∈ part) :
    companion ∈ limit := by
  rw [companionToDiscard] at h
  split at h
  · rw [Except.ok.injEq] at h
    rw [← h] at hcompanion
    exact absurd hcompanion (Finset.notMem_empty companion)
  · next found hfound =>
      split at h
      · next hin =>
          rw [Except.ok.injEq] at h
          rw [← h, Finset.mem_singleton] at hcompanion
          exact hsnapshot (hcompanion ▸ hin)
      · rw [currentCompanionIsRegularFile] at h
        simp only [except_bind_eq_ok, except_pure_eq_ok] at h
        rcases h with ⟨regular, ⟨kind, hkind, rfl⟩, h⟩
        split at h
        · next hfile =>
            rw [except_pure_eq_ok] at h
            rw [← h, Finset.mem_singleton] at hcompanion
            rw [beq_iff_eq] at hfile
            rw [hfile] at hkind
            rcases WorkingTree.stands_of_currentPathKind hkind with ⟨file, hentry⟩
            exact hstanding companion (mem_paths_of_lookup hexact (hcompanion ▸ hentry))
        · rw [except_pure_eq_ok] at h
          rw [← h] at hcompanion
          exact absurd hcompanion (Finset.notMem_empty companion)

theorem mem_limit_of_required {limit part : Finset TrackedUnityFilePath}
    {path required : TrackedUnityFilePath}
    (hstanding : ∀ path : TrackedUnityFilePath, path.segments ∈ tree.files.paths → path ∈ limit)
    (h : requiredDiscardTopologyPaths tree path = .ok part) (hrequired : required ∈ part) :
    required ∈ limit := by
  rw [requiredDiscardTopologyPaths, except_bind_eq_ok] at h
  rcases h with ⟨kind, hkind, h⟩
  cases kind with
  | missing =>
      rw [except_pure_eq_ok] at h
      exact absurd (h ▸ hrequired) (Finset.notMem_empty required)
  | file =>
      rw [except_pure_eq_ok] at h
      exact absurd (h ▸ hrequired) (Finset.notMem_empty required)
  | blockedByFile blocker =>
      rw [except_pure_eq_ok] at h
      rw [← h, Finset.mem_singleton] at hrequired
      rcases WorkingTree.stands_of_currentPathKind hkind with ⟨-, -, -, file, hentry⟩
      exact hstanding required (mem_paths_of_lookup hexact (hrequired ▸ hentry))
  | directory =>
      rcases ((gatherInto_eq_ok.mp h).2 required).mp hrequired with
        hnone | ⟨entry, hentry, single, hsingle, hin⟩
      · exact absurd hnone (Finset.notMem_empty required)
      · split at hsingle
        · cases hsingle
        · cases hsingle
        · rw [Except.ok.injEq] at hsingle
          rw [← hsingle] at hin
          exact absurd hin (Finset.notMem_empty required)
        · cases hsingle
        · simp only [except_bind_eq_ok, except_pure_eq_ok] at hsingle
          rcases hsingle with ⟨found, hfound, rfl⟩
          rw [Finset.mem_singleton] at hin
          apply hstanding
          rw [hin, segments_of_mem_walk hentry hfound, tree.files.mem_paths]
          exact (FileTree.mem_below.mp (FileTree.mem_walk.mp hentry)).1

theorem discardRound_within {limit current next : Finset TrackedUnityFilePath}
    (hsnapshot : snapshotPaths ⊆ limit)
    (hstanding : ∀ path : TrackedUnityFilePath, path.segments ∈ tree.files.paths → path ∈ limit)
    (hcurrent : current ⊆ limit) (h : discardRound tree snapshotPaths current = .ok next) :
    next ⊆ limit := by
  intro path hpath
  rcases mem_discardRound h hpath with hold | ⟨source, -, part, hpart, hin⟩ |
    ⟨source, -, -, part, hpart, hin⟩
  · exact hcurrent hold
  · exact mem_limit_of_companion hexact hsnapshot hstanding hpart hin
  · exact mem_limit_of_required hexact hstanding hpart hin

variable {requested : List TrackedUnityFilePath} {final : Finset TrackedUnityFilePath}

/-- The rounds suffice to reach a set to which none of them adds anything. -/
theorem discardExpansion_fixed (h : settle (discardRound tree snapshotPaths)
    (discardRounds tree snapshotPaths requested) requested.toFinset = .ok final) :
    discardRound tree snapshotPaths final = .ok final ∧ requested.toFinset ⊆ final := by
  rcases exists_discardLimit tree snapshotPaths requested with
    ⟨limit, hsnapshot, hrequested, hstanding, hcard⟩
  have hstep : ∀ current next, current ⊆ limit →
      discardRound tree snapshotPaths current = .ok next → current ⊆ next ∧ next ⊆ limit :=
    fun current next hcurrent hnext => ⟨subset_discardRound hnext,
      discardRound_within hexact hsnapshot hstanding hcurrent hnext⟩
  have hfixed := settle_fixed hstep hrequested (hcard.trans_le (Nat.le_add_right _ _)) h
  exact ⟨hfixed.1, hfixed.2.1⟩

/-- The expansion is exactly what the requested paths bring along. -/
theorem mem_discardExpansion (h : settle (discardRound tree snapshotPaths)
    (discardRounds tree snapshotPaths requested) requested.toFinset = .ok final)
    {path : TrackedUnityFilePath} :
    path ∈ final ↔ Expanded tree snapshotPaths requested path := by
  constructor
  · suffices hall : ∀ path ∈ final, Expanded tree snapshotPaths requested path from hall path
    refine settle_invariant (P := fun current => ∀ path ∈ current,
      Expanded tree snapshotPaths requested path) ?_ ?_ h
    · intro current next hcurrent hnext path hpath
      rcases mem_discardRound hnext hpath with hold | ⟨source, hsource, part, hpart, hin⟩ |
        ⟨source, hsource, hsnapshot, part, hpart, hin⟩
      · exact hcurrent path hold
      · exact .companion (hcurrent source hsource) hpart hin
      · refine .topology ?_ hsnapshot hpart hin
        rcases hsource with hsource | ⟨first, hfirst, brought, hbrought, hsource⟩
        · exact hcurrent source hsource
        · exact .companion (hcurrent first hfirst) hbrought hsource
    · intro path hpath
      exact .requested (List.mem_toFinset.mp hpath)
  · rcases discardExpansion_fixed hexact h with ⟨hfixed, hstart⟩
    rcases discardRound_closed hfixed with ⟨hcompanions, htopology⟩
    intro hpath
    induction hpath with
    | requested hin => exact hstart (List.mem_toFinset.mpr hin)
    | companion _ hpart hin ih =>
        rcases hcompanions _ ih with ⟨part, hfound, hsubset⟩
        rw [hfound, Except.ok.injEq] at hpart
        exact hsubset (hpart ▸ hin)
    | topology _ hsnapshot hpart hin ih =>
        rcases htopology _ ih hsnapshot with ⟨part, hfound, hsubset⟩
        rw [hfound, Except.ok.injEq] at hpart
        exact hsubset (hpart ▸ hin)

end Exact

end CheckPo
