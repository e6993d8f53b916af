/-
What an aggregation of references returns: the counts of the fully expanded trees of the
snapshots, or a corruption error whose reason the graph shows.
-/
import CheckPo.AggregationSound

namespace CheckPo

variable {graph : ManifestGraph} {roots : List ManifestRef} {tables : RebuildTables}

/-! The roots. -/

theorem Discovering.root {roots : List ManifestRef}
    (hdiscovering : Discovering graph roots ∅ ∅ (fun _ => []) (fun _ => []) tables)
    (root : ManifestRef) (row : RebuildChunk) (pending : Finset ManifestRef)
    (hrow : row = ⟨false, false, 0, (roots.count root + 1 : ℕ)⟩)
    (hpending : ∀ reference, reference ∈ pending ↔
      reference = root ∨ reference ∈ tables.pending) :
    Discovering graph (roots ++ [root]) ∅ ∅ (fun _ => []) (fun _ => [])
      { tables with chunks := tables.chunks.insert root row, pending } where
  mem_chunks reference := by
    rw [Finmap.mem_insert, hdiscovering.mem_chunks]
    simp only [List.not_mem_nil, and_false, exists_false, or_false, List.mem_append,
      List.mem_singleton]
    exact or_comm
  row reference found hfound := by
    rw [List.count_append, List.count_singleton]
    by_cases hsame : reference = root
    · subst hsame
      rw [Finmap.lookup_insert, Option.some.injEq] at hfound
      rw [← hfound, hrow]
      simp
    · rw [Finmap.lookup_insert_of_ne _ hsame] at hfound
      rw [hdiscovering.row reference found hfound]
      simp [Ne.symm hsame]
  pending reference := by
    rw [hpending, hdiscovering.pending, Finmap.mem_insert]
    simp
  edge := hdiscovering.edge
  object := hdiscovering.object
  object_row := hdiscovering.object_row
  taken_known reference htaken := absurd htaken (Finset.notMem_empty reference)
  done_taken := Finset.Subset.refl _

theorem Discovering.prepared :
    Discovering graph [] ∅ ∅ (fun _ => []) (fun _ => []) prepareRebuildAggregationTables where
  mem_chunks reference := by
    simpa [prepareRebuildAggregationTables] using Finmap.notMem_empty
  row reference row hrow := by
    rw [prepareRebuildAggregationTables, Finmap.lookup_empty] at hrow
    exact absurd hrow nofun
  pending reference := by
    simp only [prepareRebuildAggregationTables, Finset.notMem_empty, false_iff, not_and]
    exact fun hmem => absurd hmem Finmap.notMem_empty
  edge parent child := Finmap.lookup_empty _
  object leaf objectId _ entry hentry := absurd hentry List.not_mem_nil
  object_row leaf objectId row hrow := by
    rw [prepareRebuildAggregationTables, Finmap.lookup_empty] at hrow
    exact absurd hrow nofun
  taken_known reference htaken := absurd htaken (Finset.notMem_empty reference)
  done_taken := Finset.Subset.refl _

theorem queueRebuildManifestRoot_discovering {roots : List ManifestRef} {tables' : RebuildTables}
    (hdiscovering : Discovering graph roots ∅ ∅ (fun _ => []) (fun _ => []) tables)
    {root : ManifestRef} (h : queueRebuildManifestRoot tables root = .ok tables') :
    Discovering graph (roots ++ [root]) ∅ ∅ (fun _ => []) (fun _ => []) tables' := by
  rw [queueRebuildManifestRoot] at h
  split at h
  · next row hrow =>
      have hknown := Finmap.mem_of_lookup_eq_some hrow
      have hpending := (hdiscovering.pending root).mpr ⟨hknown, Finset.notMem_empty root⟩
      have hequal := hdiscovering.row root row hrow
      rw [hequal] at h
      have hadded := storedCount_ends (roots.count root) 1 "manifest root multiplicity"
        "manifest root multiplicity exceeds the supported range" "manifest root multiplicity"
      simp only [except_bind_eq_ok, except_pure_eq_ok] at h
      obtain ⟨next, hnext, multiplicity, hmultiplicity, rfl⟩ := h
      rw [hnext, except_bind_ok, hmultiplicity] at hadded
      refine hdiscovering.root root _ tables.pending ?_ fun reference => ?_
      · rw [hadded]
        simp
      · exact ⟨Or.inr, fun h => h.elim (fun h => h ▸ hpending) id⟩
  · next hnone =>
      rw [Except.ok.injEq] at h
      subst h
      have hunknown := mt (hdiscovering.mem_chunks root).mpr (Finmap.lookup_eq_none.mp hnone)
      rw [not_or] at hunknown
      refine hdiscovering.root root _ _ ?_ fun reference => Finset.mem_insert
      rw [List.count_eq_zero.mpr hunknown.1]
      rfl

theorem queued_discovered
    (h : roots.foldlM queueRebuildManifestRoot prepareRebuildAggregationTables = .ok tables) :
    Discovered graph roots ∅ tables := by
  suffices hqueued : ∀ (rest passed : List ManifestRef) (before : RebuildTables),
      Discovering graph passed ∅ ∅ (fun _ => []) (fun _ => []) before →
      rest.foldlM queueRebuildManifestRoot before = .ok tables →
      Discovering graph (passed ++ rest) ∅ ∅ (fun _ => []) (fun _ => []) tables by
    refine ⟨Finset.empty_subset _, ?_⟩
    have hheld : ∀ {α : Type} (held : ManifestRef → List α),
        heldBy ∅ held = fun _ => [] := fun held => funext fun _ => if_neg (Finset.notMem_empty _)
    rw [hheld, hheld]
    exact hqueued roots [] _ .prepared h
  intro rest
  induction rest with
  | nil =>
      intro passed before hbefore h
      rw [List.foldlM_nil, except_pure_eq_ok] at h
      rwa [List.append_nil, ← h]
  | cons root rest ih =>
      intro passed before hbefore h
      rw [List.foldlM_cons, except_bind_eq_ok] at h
      obtain ⟨next, hnext, h⟩ := h
      have hstep := ih (passed ++ [root]) next
        (queueRebuildManifestRoot_discovering hbefore hnext) h
      rwa [List.append_assoc] at hstep

/-! The fully expanded trees. -/

namespace ManifestGraph

variable (graph roots) (depth : ℕ)

/-- The chunks of the trees of all snapshots, once for each path to them. -/
def snapshotChunks : List ManifestRef :=
  roots.flatMap (expanded graph.children (fun reference => [reference]) depth)

/-- The entries of the trees: one for each snapshot and entry of it. -/
def snapshotEntries : List LeafEntry :=
  roots.flatMap (expanded graph.children graph.entries depth)

/-- The depth is that of the trees: nothing is cut off. -/
def FullyExpanded : Prop :=
  ∀ reference, graph.Reachable roots reference → EndsWithin graph.children depth reference

/-- A count beyond the range of its column or counter: the paths to a chunk, the entries of
an object, the reachable chunks, or the rows of the leaves' objects. -/
def CountOverflow : Prop :=
  (∃ reference, 2 ^ 63 ≤ (graph.snapshotChunks roots depth).count reference) ∨
    (∃ objectId, 2 ^ 63 ≤
      (graph.snapshotEntries roots depth).countP (·.objectId = objectId)) ∨
    2 ^ 64 ≤ (graph.reachable roots).card ∨
    2 ^ 64 ≤ ∑ leaf ∈ graph.reachable roots, (graph.objectIds leaf).length

variable {graph roots depth}

theorem exists_fullyExpanded (hacyclic : graph.Acyclic roots) :
    ∃ depth, graph.FullyExpanded roots depth := by
  rcases (acyclic_iff.mp hacyclic).exists_depth reachable_below with ⟨depth, hdepth⟩
  exact ⟨depth, fun reference hreference => hdepth reference (mem_reachable.mpr hreference)⟩

theorem FullyExpanded.unfolds (hexpanded : graph.FullyExpanded roots depth)
    (own : ManifestRef → ℕ) : Unfolds graph.children (graph.reachable roots) own
      (expandedTotal graph.children own depth) := fun reference hreference =>
  (hexpanded reference (mem_reachable.mp hreference)).total_unfold graph.children own

theorem count_snapshotChunks (reference : ManifestRef) :
    (graph.snapshotChunks roots depth).count reference =
      (roots.map (expandedTotal graph.children
        (fun other => if other = reference then 1 else 0) depth)).sum := by
  rw [snapshotChunks, List.count, List.countP_flatMap]
  congr 2
  funext root
  rw [Function.comp_apply, countP_expanded]
  congr 1
  funext other
  by_cases h : other = reference <;> simp [h]

theorem countP_snapshotEntries (objectId : ObjectId) :
    (graph.snapshotEntries roots depth).countP (·.objectId = objectId) =
      (roots.map (expandedTotal graph.children
        (fun leaf => graph.occurrences leaf objectId) depth)).sum := by
  rw [snapshotEntries, List.countP_flatMap]
  congr 2
  funext root
  rw [Function.comp_apply, countP_expanded]
  rfl

/-- What stops an aggregation of an acyclic graph shows in its trees. -/
theorem AggregationFailure.shown (hfailure : graph.AggregationFailure roots)
    (hacyclic : graph.Acyclic roots) (hexpanded : graph.FullyExpanded roots depth) :
    graph.SizeConflict roots ∨ graph.SizeTooLarge roots ∨ graph.CountOverflow roots depth := by
  have hacyclic' := acyclic_iff.mp hacyclic
  have hunfolds := hexpanded.unfolds
  have hbelow := @reachable_below graph roots
  cases hfailure with
  | conflict h => exact Or.inl h
  | size h => exact Or.inr (Or.inl h)
  | edges child hchild h =>
      refine Or.inr (Or.inr (Or.inl ⟨child, h.trans ?_⟩))
      rw [count_snapshotChunks]
      exact hacyclic'.edges_le hbelow hchild (hunfolds _)
  | occurrences leaf hleaf objectId h =>
      refine Or.inr (Or.inr (Or.inr (Or.inl ⟨objectId, h.trans ?_⟩)))
      rw [countP_snapshotEntries]
      exact (Finset.single_le_sum (f := fun leaf => graph.occurrences leaf objectId)
        (fun _ _ => Nat.zero_le _) hleaf).trans (hacyclic'.sum_own_le hbelow (hunfolds _))
  | multiplicity flow hflow reference hreference h =>
      refine Or.inr (Or.inr (Or.inl ⟨reference, h.trans ?_⟩))
      rw [count_snapshotChunks]
      exact hflow.multiplicity_le hbelow hreference (hunfolds _)
  | references flow hflow objectId h =>
      refine Or.inr (Or.inr (Or.inr (Or.inl ⟨objectId, h.trans ?_⟩)))
      rw [countP_snapshotEntries, ← hflow.total hbelow (hunfolds _)]
      exact Nat.le_add_right _ _
  | chunks h => exact Or.inr (Or.inr (Or.inr (Or.inr (Or.inl h))))
  | objects h => exact Or.inr (Or.inr (Or.inr (Or.inr (Or.inr h))))

end ManifestGraph

/-! The outcome. -/

/-- Every reachable chunk stands once in the order in which the chunks were processed. -/
structure ProcessedOnce (graph : ManifestGraph) (roots : List ManifestRef)
    (processed : List ManifestRef) : Prop where
  nodup : processed.Nodup
  mem : ∀ reference, reference ∈ processed ↔ graph.Reachable roots reference

/-- The table counts the pairs of a snapshot and an entry of its tree for each object. -/
structure CountsReferences (graph : ManifestGraph) (roots : List ManifestRef) (depth : ℕ)
    (refs : ObjectRefs) : Prop where
  count : ∀ objectId, (refs.lookup objectId).elim 0 ObjectRef.referenceCount =
    ((graph.snapshotEntries roots depth).countP (·.objectId = objectId) : ℕ)
  size : ∀ objectId row, refs.lookup objectId = some row →
    ∀ entry ∈ graph.snapshotEntries roots depth, entry.objectId = objectId →
      row.expectedSizeBytes = entry.sizeBytes.toNat

variable {flow : Flow ManifestRef} {state : Aggregation} {depth : ℕ}

theorem Aggregating.processedOnce (haggregating : Aggregating graph roots flow state)
    (hall : graph.reachable roots ⊆ flow.processed) :
    ProcessedOnce graph roots state.processed where
  nodup := haggregating.nodup
  mem reference := by
    rw [← List.mem_toFinset, haggregating.processed, ← ManifestGraph.mem_reachable]
    exact ⟨fun hmem => haggregating.sound.subset hmem, fun hmem => hall hmem⟩

theorem Aggregating.countsReferences (haggregating : Aggregating graph roots flow state)
    (hall : graph.reachable roots ⊆ flow.processed)
    (hexpanded : graph.FullyExpanded roots depth) :
    CountsReferences graph roots depth state.refs where
  count objectId := by
    have hprocessed := Finset.Subset.antisymm haggregating.sound.subset hall
    have hsum : referenceSum (graph.addedBy flow state.processed) objectId =
        (graph.snapshotEntries roots depth).countP (·.objectId = objectId) := by
      rw [ManifestGraph.referenceSum_addedBy haggregating.nodup, haggregating.processed,
        hprocessed, ManifestGraph.countP_snapshotEntries]
      exact haggregating.sound.total_complete ManifestGraph.reachable_below hall
        (hexpanded.unfolds _)
    rw [← hsum]
    cases hrow : state.refs.lookup objectId with
    | some row => exact (haggregating.refs.row objectId row hrow).1
    | none =>
        have hnone := mt (haggregating.refs.mem objectId).mpr (Finmap.lookup_eq_none.mp hrow)
        have hfilter : (graph.addedBy flow state.processed).filter (·.1 = objectId) = [] :=
          List.filter_eq_nil_iff.mpr fun reference hmem hid =>
            hnone ⟨reference, hmem, by simpa using hid⟩
        rw [referenceSum, hfilter]
        rfl
  size objectId row hrow entry hentry hid := by
    rcases List.mem_flatMap.mp hentry with ⟨root, hroot, hmem⟩
    rcases mem_expanded graph.children hmem with ⟨leaf, hpath, hin⟩
    have hleaf : leaf ∈ graph.reachable roots :=
      ManifestGraph.mem_reachable.mpr ⟨root, hroot, hpath⟩
    have hobject : objectId ∈ graph.objectIds leaf :=
      ManifestGraph.mem_objectIds.mpr ⟨entry, hin, hid⟩
    have hlogged : leaf ∈ state.processed :=
      List.mem_toFinset.mp (haggregating.processed ▸ hall hleaf)
    have hadded : graph.addedOf leaf (flow.multiplicity leaf) objectId ∈
        graph.addedBy flow state.processed :=
      List.mem_flatMap.mpr ⟨leaf, hlogged, List.mem_map_of_mem hobject⟩
    rw [(haggregating.refs.row objectId row hrow).2.2 _ hadded rfl,
      haggregating.represents.agree leaf hleaf entry hin, hid]
    rfl

theorem Discovered.card_keys
    (hdiscovered : Discovered graph roots (graph.reachable roots) tables) :
    tables.chunks.keys.card = (graph.reachable roots).card := by
  congr 1
  ext reference
  rw [Finmap.mem_keys]
  exact ⟨hdiscovered.reachable, hdiscovered.tables.taken_known reference⟩

/-- Where the loops end: every chunk is processed, the graph fails the aggregation, or a
cycle keeps chunks from becoming ready. -/
theorem aggregateManifestObjectReferences_ends (dbPath : String) (hloads : graph.Loads roots)
    (hdiscovered : Discovered graph roots ∅ tables) {turns : ℕ}
    (hturns : (graph.reachable roots).card < turns) :
    ∃ result, aggregateManifestObjectReferences dbPath graph.load turns tables ∅ = some result ∧
      Ends result
        (fun state => ∃ flow, Aggregating graph roots flow state ∧
          graph.reachable roots ⊆ flow.processed)
        (Corrupts (graph.AggregationFailure roots ∨ ¬ graph.Acyclic roots)) := by
  have hleft : (graph.reachable roots \ ∅).card < turns := by rwa [Finset.sdiff_empty]
  rcases discoverRebuildManifestGraph_ends hloads turns hdiscovered hleft with
    ⟨discovery, hdiscovery, hends⟩
  rw [aggregateManifestObjectReferences, hdiscovery]
  cases discovery with
  | error error => exact ⟨.error error, rfl, Corrupts.mono Or.inl error hends⟩
  | ok written =>
      have haggregating : Aggregating graph roots
          (Flow.start graph.children roots (graph.reachable roots)) ⟨written, ∅, 0, []⟩ :=
        ⟨Flow.start_sound, hends.represents, List.nodup_nil, rfl, .empty, rfl⟩
      rcases processReadyRebuildChunks_ends dbPath hloads turns haggregating
        ((Nat.sub_le _ _).trans_lt hturns) with ⟨result, hresult, hloop⟩
      simp only [Option.bind_eq_bind, Option.bind_some, hresult]
      cases result with
      | error error => exact ⟨.error error, rfl, Corrupts.mono Or.inl error hloop⟩
      | ok state =>
          rcases hloop with ⟨flow, hfinal, hstuck⟩
          by_cases hlength : state.processed.length = written.chunks.keys.card
          · refine ⟨.ok state, if_neg (not_not.mpr hlength), flow, hfinal, ?_⟩
            rw [hends.card_keys, hfinal.length_processed] at hlength
            exact (Finset.eq_of_subset_of_card_le hfinal.sound.subset hlength.ge).superset
          · refine ⟨_, if_pos hlength, ⟨_, rfl⟩, Or.inr fun hacyclic => hlength ?_⟩
            have hall : graph.reachable roots ⊆ flow.processed := by
              by_contra hopen
              rcases hfinal.sound.exists_ready (ManifestGraph.acyclic_iff.mp hacyclic) hopen with
                ⟨reference, hready⟩
              exact hstuck reference hready
            rw [hends.card_keys, hfinal.length_processed,
              Finset.Subset.antisymm hfinal.sound.subset hall]

/-- For every graph of chunks that load and every list of snapshot roots that can be
queued: without a cycle the aggregation ends, and either has processed every reachable
chunk once and counts each object's references as the fully expanded trees do, or reports
a corruption because sizes conflict or a size or a count is beyond its column; with a
cycle it reports a corruption. -/
theorem aggregation_counts (dbPath : String) (hloads : graph.Loads roots)
    (hqueued : roots.foldlM queueRebuildManifestRoot prepareRebuildAggregationTables =
      .ok tables) :
    ∃ bound, ∀ turns, bound ≤ turns →
      (graph.Acyclic roots →
        ∃ depth result, graph.FullyExpanded roots depth ∧
          aggregateManifestObjectReferences dbPath graph.load turns tables ∅ = some result ∧
          Ends result
            (fun state => ProcessedOnce graph roots state.processed ∧
              CountsReferences graph roots depth state.refs)
            (Corrupts (graph.SizeConflict roots ∨ graph.SizeTooLarge roots ∨
              graph.CountOverflow roots depth))) ∧
      (¬ graph.Acyclic roots → ∃ message,
        aggregateManifestObjectReferences dbPath graph.load turns tables ∅ =
          some (.error (.corruption message))) := by
  refine ⟨(graph.reachable roots).card + 1, fun turns hturns => ?_⟩
  rcases aggregateManifestObjectReferences_ends dbPath hloads (queued_discovered hqueued)
    (Nat.lt_of_succ_le hturns) with ⟨result, hresult, hends⟩
  constructor
  · intro hacyclic
    rcases ManifestGraph.exists_fullyExpanded hacyclic with ⟨depth, hexpanded⟩
    refine ⟨depth, result, hexpanded, hresult, hends.mono ?_ (Corrupts.mono fun h => ?_)⟩
    · rintro state ⟨flow, haggregating, hall⟩
      exact ⟨haggregating.processedOnce hall, haggregating.countsReferences hall hexpanded⟩
    · exact (h.resolve_right (not_not.mpr hacyclic)).shown hacyclic hexpanded
  · intro hcyclic
    cases result with
    | ok state =>
        rcases hends with ⟨flow, haggregating, hall⟩
        exact absurd (ManifestGraph.acyclic_iff.mpr
          (haggregating.sound.acyclic ManifestGraph.reachable_below hall)) hcyclic
    | error error =>
        rcases hends with ⟨⟨message, rfl⟩, -⟩
        exact ⟨message, hresult⟩

/-! Two small graphs. -/

namespace Sample

def filledDigest (byte : UInt8) : Digest32 := ⟨List.replicate 32 byte, List.length_replicate⟩

def topNode : ManifestRef := ⟨.node, filledDigest 1⟩
def sharedLeaf : ManifestRef := ⟨.leaf, filledDigest 2⟩

/-- One leaf entry, of a given size. -/
def assetOf (size : UInt64) : LeafEntry :=
  ⟨"Assets/a.asset", size, ⟨0, 0⟩, filledDigest 3⟩

/-- Every node has the same leaf below it twice. -/
def sharedGraph : ManifestGraph where
  load reference := match reference.kind with
    | .node => .ok (.node ⟨[], [⟨1, sharedLeaf, .zero⟩, ⟨2, sharedLeaf, .zero⟩]⟩ [])
    | .leaf => .ok (.leaf ⟨[], [assetOf 7]⟩ [])
    | .root => .error (.invalid "manifest points to a snapshot root")
  kind_eq := by
    rintro ⟨kind, id⟩ chunk h
    cases kind with
    | root => exact absurd h nofun
    | node =>
        cases h
        rfl
    | leaf =>
        cases h
        rfl

theorem sharedGraph_children (reference : ManifestRef) :
    ∀ child ∈ sharedGraph.children reference, child = sharedLeaf := by
  obtain ⟨kind, id⟩ := reference
  intro child hchild
  cases kind with
  | node =>
      change child ∈ [sharedLeaf, sharedLeaf] at hchild
      simpa using hchild
  | leaf => exact absurd hchild List.not_mem_nil
  | root => exact absurd hchild List.not_mem_nil

theorem sharedGraph_loads : sharedGraph.Loads [topNode, sharedLeaf, topNode] := by
  rintro reference ⟨root, hroot, hpath⟩
  have hkind : reference.kind ≠ .root := by
    rcases Relation.ReflTransGen.cases_tail hpath with rfl | ⟨parent, -, hchild⟩
    · simp only [List.mem_cons, List.not_mem_nil, or_false] at hroot
      rcases hroot with rfl | rfl | rfl <;> exact nofun
    · rw [sharedGraph_children parent reference hchild]
      exact nofun
  obtain ⟨kind, id⟩ := reference
  cases kind with
  | node => exact ⟨_, rfl⟩
  | leaf => exact ⟨_, rfl⟩
  | root => exact absurd rfl hkind

/-- Two snapshots share a node, a third is its leaf. -/
theorem aggregation_counts_shared :
    ∃ tables, [topNode, sharedLeaf, topNode].foldlM queueRebuildManifestRoot
        prepareRebuildAggregationTables = .ok tables ∧
      ∃ bound, ∀ turns, bound ≤ turns →
        (sharedGraph.Acyclic [topNode, sharedLeaf, topNode] →
          ∃ depth result, sharedGraph.FullyExpanded [topNode, sharedLeaf, topNode] depth ∧
            aggregateManifestObjectReferences "index.db" sharedGraph.load turns tables ∅ =
              some result ∧
            Ends result
              (fun state => ProcessedOnce sharedGraph [topNode, sharedLeaf, topNode]
                  state.processed ∧
                CountsReferences sharedGraph [topNode, sharedLeaf, topNode] depth state.refs)
              (Corrupts (sharedGraph.SizeConflict [topNode, sharedLeaf, topNode] ∨
                sharedGraph.SizeTooLarge [topNode, sharedLeaf, topNode] ∨
                sharedGraph.CountOverflow [topNode, sharedLeaf, topNode] depth))) ∧
        (¬ sharedGraph.Acyclic [topNode, sharedLeaf, topNode] → ∃ message,
          aggregateManifestObjectReferences "index.db" sharedGraph.load turns tables ∅ =
            some (.error (.corruption message))) :=
  ⟨_, rfl, aggregation_counts "index.db" sharedGraph_loads rfl⟩

/-- One leaf whose only entry has a size beyond SQLite's signed integers. -/
def largeGraph : ManifestGraph where
  load reference :=
    if reference = sharedLeaf then .ok (.leaf ⟨[], [assetOf 9223372036854775808]⟩ [])
    else .error (.invalid "manifest chunk is missing")
  kind_eq reference chunk h := by
    by_cases hleaf : reference = sharedLeaf
    · rw [if_pos hleaf] at h
      cases h
      rw [hleaf]
      rfl
    · rw [if_neg hleaf] at h
      exact absurd h nofun

theorem largeGraph_reachable {reference : ManifestRef}
    (h : largeGraph.Reachable [sharedLeaf] reference) : reference = sharedLeaf := by
  rcases h with ⟨root, hroot, hpath⟩
  rw [List.mem_singleton] at hroot
  subst hroot
  induction hpath with
  | refl => rfl
  | tail _ hedge ih =>
      rw [ih] at hedge
      exact absurd hedge List.not_mem_nil

/-- An aggregation of a single leaf fails although no sizes disagree and no count is
large: the size itself does not fit its column. -/
theorem aggregation_fails_on_size :
    ∃ tables, [sharedLeaf].foldlM queueRebuildManifestRoot prepareRebuildAggregationTables =
        .ok tables ∧
      largeGraph.Loads [sharedLeaf] ∧ largeGraph.Acyclic [sharedLeaf] ∧
      largeGraph.FullyExpanded [sharedLeaf] 1 ∧ ¬ largeGraph.SizeConflict [sharedLeaf] ∧
      ¬ largeGraph.CountOverflow [sharedLeaf] 1 ∧
      ∀ turns, ∃ message,
        aggregateManifestObjectReferences "index.db" largeGraph.load (turns + 1) tables ∅ =
          some (.error (.corruption message)) := by
  have hchildren : largeGraph.children sharedLeaf = [] := rfl
  have hentries : largeGraph.entries sharedLeaf = [assetOf 9223372036854775808] := rfl
  refine ⟨_, rfl, ?_, ?_, ?_, ?_, ?_, fun turns => ?_⟩
  · intro reference hreference
    exact ⟨_, if_pos (largeGraph_reachable hreference)⟩
  · intro reference hreference hcycle
    rw [largeGraph_reachable hreference] at hcycle
    rcases Relation.TransGen.head'_iff.mp hcycle with ⟨child, hchild, -⟩
    exact absurd hchild List.not_mem_nil
  · intro reference hreference child hchild
    rw [largeGraph_reachable hreference] at hchild
    exact absurd hchild List.not_mem_nil
  · rintro ⟨leaf, leaf', hleaf, hleaf', entry, hentry, entry', hentry', -, hne⟩
    rw [largeGraph_reachable hleaf, hentries, List.mem_singleton] at hentry
    rw [largeGraph_reachable hleaf', hentries, List.mem_singleton] at hentry'
    exact hne (by rw [hentry, hentry'])
  · have hchunks : largeGraph.snapshotChunks [sharedLeaf] 1 = [sharedLeaf] := rfl
    have hall : largeGraph.snapshotEntries [sharedLeaf] 1 = [assetOf 9223372036854775808] := rfl
    have hreachable : largeGraph.reachable [sharedLeaf] ⊆ {sharedLeaf} := fun reference hmem =>
      Finset.mem_singleton.mpr (largeGraph_reachable (ManifestGraph.mem_reachable.mp hmem))
    have hobjects : (largeGraph.objectIds sharedLeaf).length = 1 := by
      rw [ManifestGraph.objectIds, hentries, Finset.length_sort]
      rfl
    rw [ManifestGraph.CountOverflow, hchunks, hall]
    rintro (⟨reference, h⟩ | ⟨objectId, h⟩ | h | h)
    · exact absurd (h.trans List.count_le_length) (by norm_num)
    · exact absurd (h.trans List.countP_le_length) (by norm_num)
    · exact absurd (h.trans (Finset.card_le_card hreachable)) (by norm_num)
    · have hsum := h.trans (Finset.sum_le_sum_of_subset hreachable)
      rw [Finset.sum_singleton, hobjects] at hsum
      exact absurd hsum (by norm_num)
  · have hhead : (({sharedLeaf} : Finset ManifestRef).sort (· ≤ ·)).head? = some sharedLeaf := by
      rw [Finset.sort_singleton]
      rfl
    have hpending : insert sharedLeaf prepareRebuildAggregationTables.pending = {sharedLeaf} := rfl
    rw [aggregateManifestObjectReferences, discoverRebuildManifestGraph, hpending, hhead]
    exact ⟨_, rfl⟩

end Sample

end CheckPo
