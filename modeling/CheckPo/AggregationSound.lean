/-
The loop over the ready chunks carries the multiplicities of the snapshots through the
tables as the flow of the graph does, and adds to every object what each leaf holds of it.
-/
import CheckPo.AggregationDiscovery

namespace CheckPo

/-! The references table as the sum of what was added to it. -/

/-- An object, its size and a number of references to it. -/
abbrev AddedReference := ObjectId × ℕ × ℕ

def referenceSum (added : List AddedReference) (objectId : ObjectId) : ℕ :=
  ((added.filter (·.1 = objectId)).map (·.2.2)).sum

theorem referenceSum_append (first second : List AddedReference) (objectId : ObjectId) :
    referenceSum (first ++ second) objectId =
      referenceSum first objectId + referenceSum second objectId := by
  rw [referenceSum, List.filter_append, List.map_append, List.sum_append]
  rfl

theorem referenceSum_singleton (added : AddedReference) (objectId : ObjectId) :
    referenceSum [added] objectId = if added.1 = objectId then added.2.2 else 0 := by
  by_cases h : added.1 = objectId <;> simp [referenceSum, h]

structure RefsHold (added : List AddedReference) (refs : ObjectRefs) : Prop where
  mem : ∀ objectId, objectId ∈ refs ↔ ∃ reference ∈ added, reference.1 = objectId
  row : ∀ objectId row, refs.lookup objectId = some row →
    row.referenceCount = referenceSum added objectId ∧
      row.presentSizeBytes = some row.expectedSizeBytes ∧
      ∀ reference ∈ added, reference.1 = objectId → row.expectedSizeBytes = reference.2.1

theorem RefsHold.empty : RefsHold [] ∅ where
  mem objectId := by simpa using Finmap.notMem_empty
  row objectId row h := by
    rw [Finmap.lookup_empty] at h
    exact absurd h nofun

theorem RefsHold.insert {added : List AddedReference} {refs : ObjectRefs}
    (hrefs : RefsHold added refs) {objectId : ObjectId} {size count : ℕ}
    (hagree : ∀ reference ∈ added, reference.1 = objectId → reference.2.1 = size) :
    RefsHold (added ++ [(objectId, size, count)])
      (refs.insert objectId ⟨size, (referenceSum added objectId + count : ℕ), some size⟩) where
  mem other := by
    rw [Finmap.mem_insert, hrefs.mem]
    simp only [List.mem_append, List.mem_singleton, or_and_right, exists_or, exists_eq_left]
    exact (or_congr_left eq_comm).trans or_comm
  row other row hrow := by
    rw [referenceSum_append, referenceSum_singleton]
    by_cases hsame : other = objectId
    · subst hsame
      rw [Finmap.lookup_insert, Option.some.injEq] at hrow
      rw [← hrow, if_pos rfl]
      refine ⟨rfl, rfl, fun reference hmem hid => ?_⟩
      rcases List.mem_append.mp hmem with hmem | hmem
      · exact congrArg Nat.cast (hagree reference hmem hid).symm
      · rw [List.mem_singleton.mp hmem]
    · rw [Finmap.lookup_insert_of_ne _ hsame] at hrow
      rw [if_neg (Ne.symm hsame), Nat.add_zero]
      rcases hrefs.row other row hrow with ⟨hcount, hpresent, hsize⟩
      refine ⟨hcount, hpresent, fun reference hmem hid => ?_⟩
      rcases List.mem_append.mp hmem with hmem | hmem
      · exact hsize reference hmem hid
      · rw [List.mem_singleton.mp hmem] at hid
        exact absurd hid.symm hsame

/-- Adding references fails when a size or a sum is too large, or two sizes disagree. -/
theorem incrementObjectRef_ends (dbPath : String) {added : List AddedReference}
    {refs : ObjectRefs} (hrefs : RefsHold added refs) (objectId : ObjectId) {size count : ℕ}
    (hcount : 0 < count) :
    Ends (incrementObjectRef dbPath refs objectId size count)
      (RefsHold (added ++ [(objectId, size, count)]))
      (Corrupts (2 ^ 63 ≤ size ∨
        (∃ reference ∈ added, reference.1 = objectId ∧ reference.2.1 ≠ size) ∨
        2 ^ 63 ≤ referenceSum added objectId + count)) := by
  rw [incrementObjectRef]
  apply Ends.bind ((sqliteI64FromU64_ends size _).mono (fun _ h => h) (Corrupts.mono Or.inl))
  rintro _ rfl
  split
  · next row hrow =>
      rcases hrefs.row objectId row hrow with ⟨hstored, -, hsize⟩
      rcases (hrefs.mem objectId).mp (Finmap.mem_of_lookup_eq_some hrow) with
        ⟨reference, hmem, hid⟩
      refine Ends.guard (fun hconflict => ⟨⟨_, rfl⟩, Or.inr (Or.inl ⟨reference, hmem, hid, ?_⟩)⟩)
        fun hsame => ?_
      · intro h
        rw [hsize reference hmem hid, h] at hconflict
        exact hconflict rfl
      · have hsame' := not_not.mp hsame
        rw [hstored]
        apply Ends.bind ((addedCount_ends _ count _ _).mono (fun _ h => h)
          (Corrupts.mono fun h => Or.inr (Or.inr (le_trans (by norm_num) h))))
        rintro _ rfl
        apply Ends.bind ((sqliteI64FromU64_ends _ _).mono (fun _ h => h)
          (Corrupts.mono fun h => Or.inr (Or.inr h)))
        rintro _ rfl
        rw [hsame']
        exact hrefs.insert fun other hother hother' => by
          have hequal := (hsize other hother hother').symm.trans hsame'
          exact_mod_cast hequal
  · next hnone =>
      have hunknown : ∀ reference ∈ added, reference.1 ≠ objectId := fun reference hmem hid =>
        Finmap.lookup_eq_none.mp hnone ((hrefs.mem objectId).mpr ⟨reference, hmem, hid⟩)
      have hzero : referenceSum added objectId = 0 := by
        rw [referenceSum, List.filter_eq_nil_iff.mpr fun reference hmem => by
          simpa using hunknown reference hmem]
        rfl
      apply Ends.bind ((sqliteI64FromU64_ends count _).mono (fun _ h => h)
        (Corrupts.mono fun h => Or.inr (Or.inr (h.trans (Nat.le_add_left _ _)))))
      rintro _ rfl
      rw [if_neg (by omega)]
      have hinsert : RefsHold (added ++ [(objectId, size, count)]) (refs.insert objectId
          ⟨size, (referenceSum added objectId + count : ℕ), some size⟩) :=
        hrefs.insert fun reference hmem hid => absurd hid (hunknown reference hmem)
      rwa [hzero, Nat.zero_add] at hinsert

/-! What a leaf adds. -/

namespace ManifestGraph

variable (graph : ManifestGraph)

/-- The size that the first entry of a leaf with the object gives. -/
def leafSize (leaf : ManifestRef) (objectId : ObjectId) : ℕ :=
  match (graph.entries leaf).find? (·.objectId = objectId) with
  | some entry => entry.sizeBytes.toNat
  | none => 0

def addedOf (leaf : ManifestRef) (multiplicity : ℕ) (objectId : ObjectId) : AddedReference :=
  (objectId, graph.leafSize leaf objectId, multiplicity * graph.occurrences leaf objectId)

def leafAdds (leaf : ManifestRef) (multiplicity : ℕ) : List AddedReference :=
  (graph.objectIds leaf).map (graph.addedOf leaf multiplicity)

variable {graph}

theorem mem_objectIds {leaf : ManifestRef} {objectId : ObjectId} :
    objectId ∈ graph.objectIds leaf ↔
      ∃ entry ∈ graph.entries leaf, entry.objectId = objectId := by
  rw [objectIds, Finset.mem_sort, List.mem_toFinset, List.mem_map]

theorem leafSize_mem {leaf : ManifestRef} {objectId : ObjectId}
    (h : objectId ∈ graph.objectIds leaf) : ∃ entry ∈ graph.entries leaf,
      entry.objectId = objectId ∧ graph.leafSize leaf objectId = entry.sizeBytes.toNat := by
  rcases mem_objectIds.mp h with ⟨entry, hentry, hid⟩
  rw [leafSize]
  cases hfind : (graph.entries leaf).find? (·.objectId = objectId) with
  | none => exact absurd hid (by simpa using List.find?_eq_none.mp hfind entry hentry)
  | some found =>
      exact ⟨found, List.mem_of_find?_eq_some hfind,
        by simpa using List.find?_some hfind, rfl⟩

theorem occurrences_pos {leaf : ManifestRef} {objectId : ObjectId}
    (h : objectId ∈ graph.objectIds leaf) : 0 < graph.occurrences leaf objectId := by
  rcases mem_objectIds.mp h with ⟨entry, hentry, hid⟩
  exact List.countP_pos_iff.mpr ⟨entry, hentry, by simpa using hid⟩

theorem occurrences_eq_zero {leaf : ManifestRef} {objectId : ObjectId}
    (h : objectId ∉ graph.objectIds leaf) : graph.occurrences leaf objectId = 0 :=
  List.countP_eq_zero.mpr fun entry hentry hid =>
    h (mem_objectIds.mpr ⟨entry, hentry, by simpa using hid⟩)

theorem objectIds_nodup (leaf : ManifestRef) : (graph.objectIds leaf).Nodup :=
  Finset.sort_nodup _ _

/-- What some objects of a leaf add up to for one of them. -/
theorem referenceSum_map (leaf : ManifestRef) (multiplicity : ℕ) {objects : List ObjectId}
    (hnodup : objects.Nodup) (objectId : ObjectId) :
    referenceSum (objects.map (graph.addedOf leaf multiplicity)) objectId =
      if objectId ∈ objects then multiplicity * graph.occurrences leaf objectId else 0 := by
  induction objects with
  | nil => rfl
  | cons first rest ih =>
      rw [List.nodup_cons] at hnodup
      rw [List.map_cons, ← List.singleton_append, referenceSum_append, referenceSum_singleton,
        ih hnodup.2]
      by_cases hfirst : first = objectId
      · subst hfirst
        simp [addedOf, hnodup.1]
      · simp [addedOf, hfirst, Ne.symm hfirst]

theorem referenceSum_leafAdds (leaf : ManifestRef) (multiplicity : ℕ) (objectId : ObjectId) :
    referenceSum (graph.leafAdds leaf multiplicity) objectId =
      multiplicity * graph.occurrences leaf objectId := by
  rw [leafAdds, referenceSum_map leaf multiplicity (objectIds_nodup leaf)]
  by_cases h : objectId ∈ graph.objectIds leaf
  · rw [if_pos h]
  · rw [if_neg h, occurrences_eq_zero h, Nat.mul_zero]

theorem referenceSum_flatMap (multiplicity : ManifestRef → ℕ) (leaves : List ManifestRef)
    (objectId : ObjectId) :
    referenceSum (leaves.flatMap fun leaf => graph.leafAdds leaf (multiplicity leaf)) objectId =
      (leaves.map fun leaf => multiplicity leaf * graph.occurrences leaf objectId).sum := by
  induction leaves with
  | nil => rfl
  | cons first rest ih =>
      rw [List.flatMap_cons, referenceSum_append, referenceSum_leafAdds, ih, List.map_cons,
        List.sum_cons]

end ManifestGraph

/-! The tables as a flow of the graph. -/

variable (graph : ManifestGraph) (roots : List ManifestRef)

structure Represents (flow : Flow ManifestRef) (tables : RebuildTables) : Prop where
  mem_chunks : ∀ reference, reference ∈ tables.chunks ↔ reference ∈ graph.reachable roots
  row : ∀ reference ∈ graph.reachable roots, tables.chunks.lookup reference =
    some ⟨true, decide (reference ∈ flow.processed), (flow.incoming reference : ℤ),
      (flow.multiplicity reference : ℤ)⟩
  edge : ∀ parent ∈ graph.reachable roots, ∀ child, tables.edges.lookup (parent, child) =
    if child ∈ graph.children parent then some ((graph.children parent).count child : ℤ)
    else none
  mem_objects : ∀ leaf ∈ graph.reachable roots, ∀ objectId,
    (leaf, objectId) ∈ tables.leafObjects ↔ objectId ∈ graph.objectIds leaf
  object : ∀ leaf ∈ graph.reachable roots, ∀ objectId ∈ graph.objectIds leaf,
    tables.leafObjects.lookup (leaf, objectId) =
      some ⟨graph.leafSize leaf objectId, graph.occurrences leaf objectId⟩
  agree : ∀ leaf ∈ graph.reachable roots, ∀ entry ∈ graph.entries leaf,
    entry.sizeBytes.toNat = graph.leafSize leaf entry.objectId

variable {graph roots} {flow next : Flow ManifestRef} {tables : RebuildTables}

/-- After discovery every reachable chunk waits for all edges into it. -/
theorem Discovered.represents
    (hdiscovered : Discovered graph roots (graph.reachable roots) tables) :
    Represents graph roots (Flow.start graph.children roots (graph.reachable roots)) tables := by
  have hheld : ∀ {α : Type} (held : ManifestRef → List α), ∀ reference ∈ graph.reachable roots,
      heldBy (graph.reachable roots) held reference = held reference :=
    fun held reference hmem => if_pos hmem
  have hknown := fun reference => hdiscovered.tables.taken_known reference
  constructor
  · exact fun reference => ⟨hdiscovered.reachable, hknown reference⟩
  · intro reference hreference
    rcases Finmap.mem_iff.mp (hknown reference hreference) with ⟨row, hrow⟩
    rw [hrow, hdiscovered.tables.row reference row hrow, decide_eq_true hreference,
      Finset.sum_congr rfl fun parent hparent => by rw [hheld graph.children parent hparent]]
    rfl
  · intro parent hparent child
    rw [hdiscovered.tables.edge, hheld graph.children parent hparent]
  · intro leaf hleaf objectId
    have hseen := hheld graph.entries leaf hleaf
    rw [ManifestGraph.mem_objectIds, ← hseen]
    constructor
    · intro hmem
      rcases Finmap.mem_iff.mp hmem with ⟨row, hrow⟩
      rcases hdiscovered.tables.object_row leaf objectId row hrow with ⟨-, -, -, -, h⟩
      exact h
    · rintro ⟨entry, hentry, hid⟩
      by_contra hnone
      exact hdiscovered.tables.object leaf objectId (Finmap.lookup_eq_none.mpr hnone) entry
        hentry hid
  · intro leaf hleaf objectId hobject
    have hseen := hheld graph.entries leaf hleaf
    rcases ManifestGraph.leafSize_mem hobject with ⟨entry, hentry, hid, hsize⟩
    cases hrow : tables.leafObjects.lookup (leaf, objectId) with
    | none =>
        have hnone := hdiscovered.tables.object leaf objectId hrow
        rw [hseen] at hnone
        exact absurd hid (hnone entry hentry)
    | some row =>
        have hfound := hdiscovered.tables.object_row leaf objectId row hrow
        rw [hseen] at hfound
        rcases hfound with ⟨hcount, size, hstored, hagree, -⟩
        rw [hsize, hagree entry hentry hid, ← hstored, ManifestGraph.occurrences, ← hcount]
  · intro leaf hleaf entry hentry
    have hseen := hheld graph.entries leaf hleaf
    have hobject := ManifestGraph.mem_objectIds.mpr ⟨entry, hentry, rfl⟩
    rcases ManifestGraph.leafSize_mem hobject with ⟨first, hfirst, hid, hsize⟩
    cases hrow : tables.leafObjects.lookup (leaf, entry.objectId) with
    | none =>
        have hnone := hdiscovered.tables.object leaf entry.objectId hrow
        rw [hseen] at hnone
        exact absurd rfl (hnone entry hentry)
    | some row =>
        have hfound := hdiscovered.tables.object_row leaf entry.objectId row hrow
        rw [hseen] at hfound
        rcases hfound with ⟨-, size, -, hagree, -⟩
        rw [hsize, hagree first hfirst hid, hagree entry hentry rfl]

theorem Represents.mem_childrenOf (hrepresents : Represents graph roots flow tables)
    {parent : ManifestRef} (hparent : parent ∈ graph.reachable roots) {child : ManifestRef} :
    child ∈ tables.childrenOf parent ↔ child ∈ graph.children parent := by
  simp only [RebuildTables.childrenOf, Finset.mem_sort, Finset.mem_image, Finset.mem_filter,
    Finmap.mem_keys, Prod.exists, exists_eq_right]
  have hedge := hrepresents.edge parent hparent child
  constructor
  · intro hmem
    by_contra hnot
    rw [if_neg hnot] at hedge
    exact Finmap.lookup_eq_none.mp hedge hmem
  · intro hchild
    rw [if_pos hchild] at hedge
    exact Finmap.mem_of_lookup_eq_some hedge

theorem Represents.objectsOf (hrepresents : Represents graph roots flow tables)
    {leaf : ManifestRef} (hleaf : leaf ∈ graph.reachable roots) :
    tables.objectsOf leaf = graph.objectIds leaf := by
  rw [RebuildTables.objectsOf, ManifestGraph.objectIds]
  congr 1
  ext objectId
  have hmem := hrepresents.mem_objects leaf hleaf objectId
  rw [ManifestGraph.objectIds, Finset.mem_sort] at hmem
  rw [← hmem]
  simp only [Finset.mem_image, Finset.mem_filter, Finmap.mem_keys, Prod.exists, exists_eq_right]

theorem Represents.isReady (hrepresents : Represents graph roots flow tables)
    {reference : ManifestRef} : reference ∈ tables.chunks.keys.filter (tables.isReady ·) ↔
      flow.Ready (graph.reachable roots) reference := by
  rw [Finset.mem_filter, Finmap.mem_keys, hrepresents.mem_chunks]
  constructor
  · rintro ⟨hmem, hready⟩
    rw [RebuildTables.isReady, hrepresents.row reference hmem] at hready
    simp only [Bool.true_and, Bool.and_eq_true, Bool.not_eq_true', decide_eq_false_iff_not,
      beq_iff_eq, Nat.cast_eq_zero] at hready
    exact ⟨hmem, hready.1, hready.2⟩
  · rintro ⟨hmem, hunprocessed, hdrained⟩
    refine ⟨hmem, ?_⟩
    rw [RebuildTables.isReady, hrepresents.row reference hmem]
    simp [hunprocessed, hdrained]

/-! A node. -/

/-- The flow with the edges to some children followed. -/
def Flow.partly (flow next : Flow ManifestRef) (passed : List ManifestRef) : Flow ManifestRef where
  multiplicity child := if child ∈ passed then next.multiplicity child else flow.multiplicity child
  incoming child := if child ∈ passed then next.incoming child else flow.incoming child
  processed := flow.processed

theorem Represents.follow {passed : List ManifestRef} {child : ManifestRef}
    (hrepresents : Represents graph roots (flow.partly next passed) tables)
    (hchild : child ∈ graph.reachable roots) {row : RebuildChunk}
    (hrow : tables.chunks.lookup child = some row) :
    Represents graph roots (flow.partly next (passed ++ [child]))
      { tables with chunks := tables.chunks.insert child { row with
          multiplicity := (next.multiplicity child : ℤ)
          incomingRemaining := (next.incoming child : ℤ) } } where
  mem_chunks reference := by
    rw [Finmap.mem_insert, hrepresents.mem_chunks]
    exact ⟨fun h => h.elim (fun h => h ▸ hchild) id, Or.inr⟩
  row reference hreference := by
    by_cases hsame : reference = child
    · subst hsame
      rw [hrepresents.row reference hreference, Option.some.injEq] at hrow
      rw [Finmap.lookup_insert, ← hrow]
      simp [Flow.partly]
      rfl
    · rw [Finmap.lookup_insert_of_ne _ hsame, hrepresents.row reference hreference]
      simp [Flow.partly, hsame]
      rfl
  edge := hrepresents.edge
  mem_objects := hrepresents.mem_objects
  object := hrepresents.object
  agree := hrepresents.agree

/-- What a fold over a chunk's rows leaves of the rest of the state. -/
structure SameBesides (state state' : Aggregation) : Prop where
  refs : state'.refs = state.refs
  count : state'.aggregatedObjectCount = state.aggregatedObjectCount
  processed : state'.processed = state.processed

variable (dbPath : String) {state : Aggregation} {parent : ManifestRef}

theorem followRebuildEdge_ends
    (hsound : FlowSound graph.children roots (graph.reachable roots) flow)
    (hready : flow.Ready (graph.reachable roots) parent) {passed : List ManifestRef}
    (hrepresents : Represents graph roots
      (flow.partly (flow.process graph.children parent) passed) state.tables)
    {child : ManifestRef} (hchild : child ∈ graph.children parent) (hnew : child ∉ passed) :
    Ends (followRebuildEdge dbPath parent (flow.multiplicity parent) state child)
      (fun state' => SameBesides state state' ∧ Represents graph roots
        (flow.partly (flow.process graph.children parent) (passed ++ [child])) state'.tables)
      (Corrupts (graph.AggregationFailure roots)) := by
  have hreachable := ManifestGraph.reachable_below.child parent hready.mem child hchild
  have hnext := hsound.step ManifestGraph.reachable_below hready (hsound.process_step hready)
  have hedges := hsound.edges_le hready hreachable
  have hlarge : ∀ {bound}, 2 ^ 63 ≤ bound →
      bound ≤ flow.multiplicity child +
        flow.multiplicity parent * (graph.children parent).count child →
      graph.AggregationFailure roots := fun hbound h =>
    .multiplicity _ hnext child hreachable (hbound.trans h)
  have hrow := hrepresents.row child hreachable
  have hmultiplicity : (flow.partly (flow.process graph.children parent) passed).multiplicity
      child = flow.multiplicity child := if_neg hnew
  have hincoming : (flow.partly (flow.process graph.children parent) passed).incoming
      child = flow.incoming child := if_neg hnew
  rw [hmultiplicity, hincoming] at hrow
  rw [followRebuildEdge, hrepresents.edge parent hready.mem, if_pos hchild, hrow]
  simp only [queryRow, orError, except_bind_ok, rebuildU64_natCast]
  apply Ends.bind ((checkedU64_ends _ _).mono (fun _ h => h)
    (Corrupts.mono fun h => hlarge (le_trans (by norm_num) h) (Nat.le_add_left _ _)))
  rintro _ rfl
  apply Ends.bind ((addedCount_ends _ _ _ _).mono (fun _ h => h)
    (Corrupts.mono fun h => hlarge (le_trans (by norm_num) h) le_rfl))
  rintro _ rfl
  rw [if_neg (Nat.not_lt.mpr hedges)]
  apply Ends.bind ((sqliteI64FromU64_ends _ _).mono (fun _ h => h)
    (Corrupts.mono fun h => hlarge h le_rfl))
  rintro _ rfl
  apply Ends.bind ((sqliteI64FromU64_ends _ _).mono (fun _ h => h) (Corrupts.mono fun h => ?_))
  · rintro _ rfl
    exact ⟨⟨rfl, rfl, rfl⟩, hrepresents.follow hreachable hrow⟩
  · refine .edges child hreachable (h.trans ((Nat.sub_le _ _).trans ?_))
    rw [hsound.incoming_eq child hreachable]
    exact Finset.sum_le_sum_of_subset Finset.sdiff_subset

/-- Marking the chunk turns the tables with all its edges followed into the next flow's. -/
theorem Represents.process {reference : ManifestRef}
    (hready : flow.Ready (graph.reachable roots) reference) {passed : List ManifestRef}
    (hrepresents : Represents graph roots
      (flow.partly (flow.process graph.children reference) passed) tables)
    (hpassed : ∀ child, child ∈ passed ↔ child ∈ graph.children reference) :
    Represents graph roots (flow.process graph.children reference)
      (tables.update reference fun row => { row with processed := true }) := by
  have hrow := hrepresents.row
  have hmultiplicity : ∀ child,
      (flow.partly (flow.process graph.children reference) passed).multiplicity child =
        (flow.process graph.children reference).multiplicity child := fun child => by
    by_cases hmem : child ∈ passed
    · exact if_pos hmem
    · have hcount := List.count_eq_zero.mpr (mt (hpassed child).mpr hmem)
      simp [Flow.partly, Flow.process, hmem, hcount]
  have hincoming : ∀ child,
      (flow.partly (flow.process graph.children reference) passed).incoming child =
        (flow.process graph.children reference).incoming child := fun child => by
    by_cases hmem : child ∈ passed
    · exact if_pos hmem
    · have hcount := List.count_eq_zero.mpr (mt (hpassed child).mpr hmem)
      simp [Flow.partly, Flow.process, hmem, hcount]
  simp only [hmultiplicity, hincoming] at hrow
  rw [RebuildTables.update, hrow reference hready.mem]
  constructor
  · intro other
    rw [Finmap.mem_insert, hrepresents.mem_chunks]
    exact ⟨fun h => h.elim (fun h => h ▸ hready.mem) id, Or.inr⟩
  · intro other hother
    have hprocessed : other ∈ (flow.process graph.children reference).processed ↔
        other = reference ∨ other ∈ flow.processed := Finset.mem_insert
    by_cases hsame : other = reference
    · subst hsame
      rw [Finmap.lookup_insert, decide_eq_true (hprocessed.mpr (Or.inl rfl))]
    · rw [Finmap.lookup_insert_of_ne _ hsame, hrow other hother]
      simp only [hprocessed, hsame, false_or]
      rfl
  · exact hrepresents.edge
  · exact hrepresents.mem_objects
  · exact hrepresents.object
  · exact hrepresents.agree

/-! A leaf. -/

namespace ManifestGraph

/-- What the processed chunks have added. -/
def addedBy (graph : ManifestGraph) (flow : Flow ManifestRef) (processed : List ManifestRef) :
    List AddedReference :=
  processed.flatMap fun leaf => graph.leafAdds leaf (flow.multiplicity leaf)

theorem referenceSum_addedBy {processed : List ManifestRef} (hnodup : processed.Nodup)
    (objectId : ObjectId) :
    referenceSum (graph.addedBy flow processed) objectId =
      ∑ leaf ∈ processed.toFinset,
        flow.multiplicity leaf * graph.occurrences leaf objectId := by
  rw [addedBy, referenceSum_flatMap, List.sum_toFinset _ hnodup]

theorem length_addedBy {processed : List ManifestRef} (hnodup : processed.Nodup) :
    (graph.addedBy flow processed).length =
      ∑ leaf ∈ processed.toFinset, (graph.objectIds leaf).length := by
  rw [addedBy, List.length_flatMap, List.sum_toFinset _ hnodup]
  simp only [leafAdds, List.length_map]

theorem mem_addedBy {processed : List ManifestRef} {reference : AddedReference}
    (h : reference ∈ graph.addedBy flow processed) : ∃ leaf ∈ processed,
      reference.1 ∈ graph.objectIds leaf ∧ reference.2.1 = graph.leafSize leaf reference.1 := by
  rcases List.mem_flatMap.mp h with ⟨leaf, hleaf, hmem⟩
  rcases List.mem_map.mp hmem with ⟨objectId, hobject, rfl⟩
  exact ⟨leaf, hleaf, hobject, rfl⟩

/-- Two leaves whose sizes for an object differ have entries that differ. -/
theorem sizeConflict_of_leafSize {leaf leaf' : ManifestRef}
    (hleaf : leaf ∈ graph.reachable roots) (hleaf' : leaf' ∈ graph.reachable roots)
    {objectId : ObjectId} (hobject : objectId ∈ graph.objectIds leaf)
    (hobject' : objectId ∈ graph.objectIds leaf')
    (hne : graph.leafSize leaf objectId ≠ graph.leafSize leaf' objectId) :
    graph.SizeConflict roots := by
  rcases leafSize_mem hobject with ⟨entry, hentry, hid, hsize⟩
  rcases leafSize_mem hobject' with ⟨entry', hentry', hid', hsize'⟩
  refine ⟨leaf, leaf', mem_reachable.mp hleaf, mem_reachable.mp hleaf', entry, hentry, entry',
    hentry', hid.trans hid'.symm, fun h => hne ?_⟩
  rw [hsize, hsize', h]

end ManifestGraph

variable (graph roots) in
/-- Between two chunks: the tables are the flow's, and the references are what the
processed chunks have added. -/
structure Aggregating (flow : Flow ManifestRef) (state : Aggregation) : Prop where
  sound : FlowSound graph.children roots (graph.reachable roots) flow
  represents : Represents graph roots flow state.tables
  nodup : state.processed.Nodup
  processed : state.processed.toFinset = flow.processed
  refs : RefsHold (graph.addedBy flow state.processed) state.refs
  count : state.aggregatedObjectCount = (graph.addedBy flow state.processed).length

theorem Aggregating.reachable (haggregating : Aggregating graph roots flow state)
    {leaf : ManifestRef} (hleaf : leaf ∈ state.processed) : leaf ∈ graph.reachable roots :=
  haggregating.sound.subset (haggregating.processed ▸ List.mem_toFinset.mpr hleaf)

/-- The failures that an object of a ready leaf can meet. -/
theorem Aggregating.object_failure (haggregating : Aggregating graph roots flow state)
    {leaf : ManifestRef} (hready : flow.Ready (graph.reachable roots) leaf)
    {passed rest : List ObjectId} {objectId : ObjectId}
    (hobjects : graph.objectIds leaf = passed ++ objectId :: rest)
    (h : 2 ^ 63 ≤ graph.leafSize leaf objectId ∨
      (∃ reference ∈ graph.addedBy flow state.processed ++
          passed.map (graph.addedOf leaf (flow.multiplicity leaf)),
        reference.1 = objectId ∧ reference.2.1 ≠ graph.leafSize leaf objectId) ∨
      2 ^ 63 ≤ referenceSum (graph.addedBy flow state.processed ++
          passed.map (graph.addedOf leaf (flow.multiplicity leaf))) objectId +
        flow.multiplicity leaf * graph.occurrences leaf objectId) :
    graph.AggregationFailure roots := by
  have hobject : objectId ∈ graph.objectIds leaf := by
    rw [hobjects]
    exact List.mem_append_right _ List.mem_cons_self
  have hnew : objectId ∉ passed := by
    have hnodup : (graph.objectIds leaf).Nodup := ManifestGraph.objectIds_nodup leaf
    rw [hobjects] at hnodup
    exact fun hmem => List.disjoint_of_nodup_append hnodup hmem List.mem_cons_self
  rcases h with hsize | ⟨reference, hmem, rfl, hne⟩ | hsum
  · rcases ManifestGraph.leafSize_mem hobject with ⟨entry, hentry, -, hequal⟩
    exact .size ⟨leaf, ManifestGraph.mem_reachable.mp hready.mem, entry, hentry, hequal ▸ hsize⟩
  · rcases List.mem_append.mp hmem with hmem | hmem
    · rcases ManifestGraph.mem_addedBy hmem with ⟨other, hother, hin, hequal⟩
      exact .conflict (ManifestGraph.sizeConflict_of_leafSize (haggregating.reachable hother)
        hready.mem hin hobject (hequal ▸ hne))
    · rcases List.mem_map.mp hmem with ⟨other, hother, rfl⟩
      exact absurd hother hnew
  · have hstep := haggregating.sound.process_step hready
    have hnext := haggregating.sound.step ManifestGraph.reachable_below hready hstep
    have hkept := haggregating.sound.kept hready hstep
    refine .references _ hnext objectId (hsum.trans_eq ?_)
    rw [referenceSum_append, ManifestGraph.referenceSum_addedBy haggregating.nodup,
      ManifestGraph.referenceSum_map leaf _
        (List.Nodup.of_append_left (hobjects ▸ ManifestGraph.objectIds_nodup leaf)),
      if_neg hnew, Nat.add_zero, haggregating.processed, hstep.processed_eq,
      Finset.sum_insert hready.unprocessed, hkept leaf (Finset.mem_insert_self _ _), Nat.add_comm]
    congr 1
    exact Finset.sum_congr rfl fun other hother => by
      rw [hkept other (Finset.mem_insert_of_mem hother)]

theorem Aggregating.length_le (haggregating : Aggregating graph roots flow state)
    {leaf : ManifestRef} (hready : flow.Ready (graph.reachable roots) leaf) :
    (graph.addedBy flow state.processed).length + (graph.objectIds leaf).length ≤
      ∑ leaf ∈ graph.reachable roots, (graph.objectIds leaf).length := by
  rw [ManifestGraph.length_addedBy haggregating.nodup, haggregating.processed, Nat.add_comm,
    ← Finset.sum_insert (f := fun leaf => (graph.objectIds leaf).length) hready.unprocessed]
  exact Finset.sum_le_sum_of_subset
    (Finset.insert_subset hready.mem haggregating.sound.subset)

/-- The rest of the state while the objects of a leaf are added. -/
structure AddingLeaf (graph : ManifestGraph) (flow : Flow ManifestRef) (state : Aggregation)
    (leaf : ManifestRef) (passed : List ObjectId) (state' : Aggregation) : Prop where
  tables : state'.tables = state.tables
  processed : state'.processed = state.processed
  refs : RefsHold (graph.addedBy flow state.processed ++
    passed.map (graph.addedOf leaf (flow.multiplicity leaf))) state'.refs
  count : state'.aggregatedObjectCount =
    (graph.addedBy flow state.processed).length + passed.length

theorem aggregateRebuildObject_ends (haggregating : Aggregating graph roots flow state)
    {leaf : ManifestRef} (hready : flow.Ready (graph.reachable roots) leaf)
    {passed rest : List ObjectId} {objectId : ObjectId}
    (hobjects : graph.objectIds leaf = passed ++ objectId :: rest) {state' : Aggregation}
    (hadding : AddingLeaf graph flow state leaf passed state') :
    Ends (aggregateRebuildObject dbPath leaf (flow.multiplicity leaf) state' objectId)
      (AddingLeaf graph flow state leaf (passed ++ [objectId]))
      (Corrupts (graph.AggregationFailure roots)) := by
  have hobject : objectId ∈ graph.objectIds leaf := by
    rw [hobjects]
    exact List.mem_append_right _ List.mem_cons_self
  have hpositive := haggregating.sound.positive_of_drained ManifestGraph.reachable_below
    hready.mem hready.drained
  have hfails := haggregating.object_failure hready hobjects
  rw [aggregateRebuildObject, hadding.tables,
    haggregating.represents.object leaf hready.mem objectId hobject]
  simp only [queryRow, orError, except_bind_ok, rebuildU64_natCast]
  apply Ends.bind ((checkedU64_ends _ _).mono (fun _ h => h) (Corrupts.mono fun h =>
    hfails (Or.inr (Or.inr ((le_trans (by norm_num) h).trans (Nat.le_add_left _ _))))))
  rintro _ rfl
  apply Ends.bind ((incrementObjectRef_ends dbPath hadding.refs objectId
    (Nat.mul_pos hpositive (ManifestGraph.occurrences_pos hobject))).mono (fun _ h => h)
    (Corrupts.mono hfails))
  intro refs hrefs
  apply Ends.bind ((checkedU64_ends _ _).mono (fun _ h => h) (Corrupts.mono fun h => ?_))
  · rintro _ rfl
    refine ⟨rfl, hadding.processed, ?_, ?_⟩
    · rw [List.map_append, ← List.append_assoc]
      exact hrefs
    · change state'.aggregatedObjectCount + 1 = _
      rw [hadding.count, List.length_append]
      rfl
  · refine .objects (h.trans (le_trans ?_ (haggregating.length_le hready)))
    rw [hadding.count, hobjects, List.length_append, List.length_cons]
    omega

/-! A chunk, a page and the loop. -/

/-- The state once a chunk's edges or objects are carried, before it is marked. -/
structure Carried (graph : ManifestGraph) (roots : List ManifestRef) (flow : Flow ManifestRef)
    (state : Aggregation) (reference : ManifestRef) (state' : Aggregation) : Prop where
  represents : ∃ passed, (∀ child, child ∈ passed ↔ child ∈ graph.children reference) ∧
    Represents graph roots (flow.partly (flow.process graph.children reference) passed)
      state'.tables
  processed : state'.processed = state.processed
  refs : RefsHold (graph.addedBy flow state.processed ++
    graph.leafAdds reference (flow.multiplicity reference)) state'.refs
  count : state'.aggregatedObjectCount = (graph.addedBy flow state.processed ++
    graph.leafAdds reference (flow.multiplicity reference)).length

theorem ManifestGraph.leafAdds_nil {reference : ManifestRef}
    (h : graph.entries reference = []) (multiplicity : ℕ) :
    graph.leafAdds reference multiplicity = [] := by
  simp [leafAdds, objectIds, h]

theorem carryRebuildChunk_ends (hloads : graph.Loads roots)
    (haggregating : Aggregating graph roots flow state) {reference : ManifestRef}
    (hready : flow.Ready (graph.reachable roots) reference) :
    Ends (carryRebuildChunk dbPath reference (flow.multiplicity reference) state)
      (Carried graph roots flow state reference) (Corrupts (graph.AggregationFailure roots)) := by
  rcases hloads reference (ManifestGraph.mem_reachable.mp hready.mem) with ⟨chunk, hload⟩
  have hchildren := ManifestGraph.children_eq hload
  have hentries := ManifestGraph.entries_eq hload
  have hkind := graph.kind_eq reference chunk hload
  rw [carryRebuildChunk, ← hkind]
  cases chunk with
  | node node bytes =>
      have hmem : ∀ child, child ∈ state.tables.childrenOf reference ↔
          child ∈ graph.children reference :=
        fun _ => haggregating.represents.mem_childrenOf hready.mem
      apply Ends.mono (Ends.foldlM (fun passed state' => SameBesides state state' ∧
        Represents graph roots
          (flow.partly (flow.process graph.children reference) passed) state'.tables)
        ⟨⟨rfl, rfl, rfl⟩, haggregating.represents⟩ ?_) ?_ fun _ h => h
      · intro passed child rest state' hvalues ⟨hsame, hrepresents⟩
        have hnodup : (state.tables.childrenOf reference).Nodup := Finset.sort_nodup _ _
        have hchild : child ∈ state.tables.childrenOf reference := by
          rw [hvalues]
          exact List.mem_append_right _ List.mem_cons_self
        rw [hvalues] at hnodup
        have hnew : child ∉ passed := fun hpassed =>
          List.disjoint_of_nodup_append hnodup hpassed List.mem_cons_self
        refine (followRebuildEdge_ends dbPath haggregating.sound hready hrepresents
          ((hmem child).mp hchild) hnew).mono ?_ fun _ h => h
        exact fun state'' ⟨hsame', hnext⟩ => ⟨⟨hsame'.refs.trans hsame.refs,
          hsame'.count.trans hsame.count, hsame'.processed.trans hsame.processed⟩, hnext⟩
      · intro state' ⟨hsame, hrepresents⟩
        have hnil := ManifestGraph.leafAdds_nil (hentries.trans rfl) (flow.multiplicity reference)
        refine ⟨⟨_, hmem, hrepresents⟩, hsame.processed, ?_, ?_⟩
        · rw [hnil, List.append_nil, hsame.refs]
          exact haggregating.refs
        · rw [hnil, List.append_nil, hsame.count]
          exact haggregating.count
  | leaf leaf bytes =>
      have hobjects := haggregating.represents.objectsOf hready.mem
      rw [DecodedChunk.kind]
      rw [hobjects]
      apply Ends.mono (Ends.foldlM (AddingLeaf graph flow state reference)
        ⟨rfl, rfl, ?_, haggregating.count⟩ ?_) ?_ fun _ h => h
      · rw [List.map_nil, List.append_nil]
        exact haggregating.refs
      · intro passed objectId rest state' hvalues hadding
        exact aggregateRebuildObject_ends dbPath haggregating hready hvalues hadding
      · intro state' hadding
        refine ⟨⟨[], fun child => ?_, ?_⟩, hadding.processed, hadding.refs, ?_⟩
        · rw [hchildren]
          rfl
        · rw [hadding.tables]
          exact haggregating.represents
        · rw [hadding.count, List.length_append, ManifestGraph.leafAdds, List.length_map]

/-- A ready chunk is processed, or the aggregation fails for a reason. -/
theorem processReadyRebuildChunk_ends (hloads : graph.Loads roots)
    (haggregating : Aggregating graph roots flow state) {reference : ManifestRef}
    (hready : flow.Ready (graph.reachable roots) reference) :
    Ends (processReadyRebuildChunk dbPath state reference)
      (fun state' => Aggregating graph roots (flow.process graph.children reference) state' ∧
        state'.processed = state.processed ++ [reference])
      (Corrupts (graph.AggregationFailure roots)) := by
  have hstep := haggregating.sound.process_step hready
  have hnext := haggregating.sound.step ManifestGraph.reachable_below hready hstep
  have hkept := haggregating.sound.kept hready hstep
  have hnew : reference ∉ state.processed := fun hmem => hready.unprocessed
    (haggregating.processed ▸ List.mem_toFinset.mpr hmem)
  rw [processReadyRebuildChunk, haggregating.represents.row reference hready.mem]
  simp only [queryRow, orError, except_bind_ok, rebuildU64_natCast]
  apply Ends.bind (carryRebuildChunk_ends dbPath hloads haggregating hready)
  intro state' hcarried
  apply Ends.bind ((checkedU64_ends _ _).mono (fun _ h => h) (Corrupts.mono fun h => ?_))
  · rintro _ rfl
    rcases hcarried.represents with ⟨passed, hpassed, hrepresents⟩
    have hadded : graph.addedBy (flow.process graph.children reference)
        (state.processed ++ [reference]) = graph.addedBy flow state.processed ++
          graph.leafAdds reference (flow.multiplicity reference) := by
      rw [ManifestGraph.addedBy, List.flatMap_append, List.flatMap_singleton,
        hkept reference (Finset.mem_insert_self _ _)]
      congr 1
      refine List.flatMap_congr fun leaf hleaf => ?_
      rw [hkept leaf (Finset.mem_insert_of_mem
        (haggregating.processed ▸ List.mem_toFinset.mpr hleaf))]
    have hlog : state'.processed ++ [reference] = state.processed ++ [reference] := by
      rw [hcarried.processed]
    refine ⟨⟨hnext, hrepresents.process hready hpassed, ?_, ?_, ?_, ?_⟩, hlog⟩
    · change (state'.processed ++ [reference]).Nodup
      rw [hlog]
      exact List.nodup_append.mpr ⟨haggregating.nodup, List.nodup_singleton _,
        fun first hfirst second hsecond h =>
          hnew (List.mem_singleton.mp hsecond ▸ h ▸ hfirst)⟩
    · change (state'.processed ++ [reference]).toFinset = _
      rw [hlog, List.toFinset_append, haggregating.processed, hstep.processed_eq, Finset.union_comm]
      rfl
    · change RefsHold (graph.addedBy _ (state'.processed ++ [reference])) state'.refs
      rw [hlog, hadded]
      exact hcarried.refs
    · change state'.aggregatedObjectCount = (graph.addedBy _ (state'.processed ++ [reference])).length
      rw [hlog, hadded]
      exact hcarried.count
  · refine .chunks (h.trans ?_)
    rw [hcarried.processed, ← List.toFinset_card_of_nodup haggregating.nodup,
      haggregating.processed, ← Finset.card_insert_of_notMem hready.unprocessed]
    exact Finset.card_le_card (Finset.insert_subset hready.mem haggregating.sound.subset)

/-- Processing one ready chunk leaves another ready. -/
theorem Flow.Ready.process (hsound : FlowSound graph.children roots (graph.reachable roots) flow)
    {reference other : ManifestRef} (hready : flow.Ready (graph.reachable roots) reference)
    (hother : flow.Ready (graph.reachable roots) other) (hne : other ≠ reference) :
    (flow.process graph.children reference).Ready (graph.reachable roots) other where
  mem := hother.mem
  unprocessed hmem := (Finset.mem_insert.mp hmem).elim hne hother.unprocessed
  drained := by
    have hedges := hsound.edges_le hready hother.mem
    rw [hother.drained] at hedges
    change flow.incoming other - _ = 0
    rw [hother.drained, Nat.zero_sub]

theorem Represents.readReady (hloads : graph.Loads roots)
    (hrepresents : Represents graph roots flow tables) (limit : ℕ) :
    ∃ page : List ManifestRef, readReadyRebuildChunks tables limit = .ok page ∧ page.Nodup ∧
      (∀ reference ∈ page, flow.Ready (graph.reachable roots) reference) ∧
      (0 < limit → page = [] → ∀ reference, ¬ flow.Ready (graph.reachable roots) reference) := by
  have hready : ∀ reference,
      reference ∈ (tables.chunks.keys.filter (tables.isReady ·)).sort (· ≤ ·) ↔
        flow.Ready (graph.reachable roots) reference := fun reference =>
    (Finset.mem_sort _).trans hrepresents.isReady
  refine ⟨_, mapM_ok_eq_map (g := id) fun reference hmem => ?_, ?_, ?_, ?_⟩
  · have hreachable := ((hready reference).mp (List.mem_of_mem_take hmem)).mem
    rcases hloads reference (ManifestGraph.mem_reachable.mp hreachable) with ⟨chunk, hload⟩
    have hkind : reference.kind ≠ .root := by
      rw [← graph.kind_eq reference chunk hload]
      cases chunk <;> exact nofun
    exact if_neg hkind
  · rw [List.map_id]
    exact (Finset.sort_nodup _ _).sublist (List.take_sublist limit _)
  · intro reference hmem
    rw [List.map_id] at hmem
    exact (hready reference).mp (List.mem_of_mem_take hmem)
  · intro hlimit hempty reference h
    rw [List.map_id, List.take_eq_nil_iff] at hempty
    rcases hempty with hzero | hnil
    · exact absurd hzero (Nat.pos_iff_ne_zero.mp hlimit)
    · have hmem := (hready reference).mpr h
      rw [hnil] at hmem
      exact List.not_mem_nil hmem

/-- A page of ready chunks. -/
theorem processPage_ends (hloads : graph.Loads roots)
    (haggregating : Aggregating graph roots flow state) {page : List ManifestRef}
    (hnodup : page.Nodup)
    (hready : ∀ reference ∈ page, flow.Ready (graph.reachable roots) reference) :
    Ends (page.foldlM (processReadyRebuildChunk dbPath) state)
      (fun state' => (∃ flow', Aggregating graph roots flow' state') ∧
        state'.processed = state.processed ++ page)
      (Corrupts (graph.AggregationFailure roots)) := by
  apply Ends.mono (Ends.foldlM (fun passed state' => ∃ flow',
    Aggregating graph roots flow' state' ∧ state'.processed = state.processed ++ passed ∧
      ∀ reference ∈ page, reference ∉ passed → flow'.Ready (graph.reachable roots) reference)
    ⟨flow, haggregating, (List.append_nil _).symm, fun reference hmem _ => hready reference hmem⟩
    ?_) (fun state' ⟨flow', h, hlog, _⟩ => ⟨⟨flow', h⟩, hlog⟩) fun _ h => h
  intro passed reference rest state' hvalues ⟨flow', haggregating', hlog, hready'⟩
  have hmem : reference ∈ page := by
    rw [hvalues]
    exact List.mem_append_right _ List.mem_cons_self
  have hnew : reference ∉ passed := by
    rw [hvalues] at hnodup
    exact fun hpassed => List.disjoint_of_nodup_append hnodup hpassed List.mem_cons_self
  have hfirst := hready' reference hmem hnew
  refine (processReadyRebuildChunk_ends dbPath hloads haggregating' hfirst).mono ?_ fun _ h => h
  rintro state'' ⟨hnext, hlog'⟩
  refine ⟨_, hnext, ?_, fun other hother hnot => ?_⟩
  · rw [hlog', hlog, List.append_assoc]
  · rw [List.mem_append, List.mem_singleton, not_or] at hnot
    exact Flow.Ready.process haggregating'.sound hfirst (hready' other hother hnot.1) hnot.2

theorem Aggregating.length_processed (haggregating : Aggregating graph roots flow state) :
    state.processed.length = flow.processed.card := by
  rw [← List.toFinset_card_of_nodup haggregating.nodup, haggregating.processed]

/-- The loop ends when no chunk is ready. -/
theorem processReadyRebuildChunks_ends (hloads : graph.Loads roots) (turns : ℕ)
    (haggregating : Aggregating graph roots flow state)
    (hturns : (graph.reachable roots).card - state.processed.length < turns) :
    ∃ result, processReadyRebuildChunks dbPath turns state = some result ∧
      Ends result (fun state' => ∃ flow', Aggregating graph roots flow' state' ∧
          ∀ reference, ¬ flow'.Ready (graph.reachable roots) reference)
        (Corrupts (graph.AggregationFailure roots)) := by
  induction turns generalizing flow state with
  | zero => exact absurd hturns (Nat.not_lt_zero _)
  | succ turns ih =>
      rcases haggregating.represents.readReady hloads 256 with
        ⟨page, hread, hnodup, hready, hempty⟩
      rw [processReadyRebuildChunks, hread]
      cases hpage : page with
      | nil => exact ⟨.ok state, rfl, flow, haggregating, hempty (by norm_num) hpage⟩
      | cons first rest =>
          have hstep := processPage_ends dbPath hloads haggregating hnodup hready
          rw [hpage] at hstep
          cases hfold : (first :: rest).foldlM (processReadyRebuildChunk dbPath) state with
          | error error =>
              rw [hfold] at hstep
              exact ⟨.error error, by simp only [hfold], hstep⟩
          | ok state' =>
              rw [hfold] at hstep
              rcases hstep with ⟨⟨flow', hnext⟩, hlog⟩
              have hleft : (graph.reachable roots).card - state'.processed.length < turns := by
                have hbound := Finset.card_le_card hnext.sound.subset
                rw [← hnext.length_processed] at hbound
                rw [hlog, List.length_append, List.length_cons] at hbound ⊢
                omega
              rcases ih hnext hleft with ⟨result, hresult, hends⟩
              exact ⟨result, by simp only [hfold, hresult], hends⟩

end CheckPo
