/-
A whole garbage collection: the files that it deletes are exactly those of the content
stores that no snapshot and no part of the inventory uses, wherever it is cut short or refused
a step the others are kept, and when it completes none of the unused ones is left.
-/
import CheckPo.GarbageNodes
import CheckPo.GrowingInventory

namespace CheckPo

open FileTree

section Hash

variable {chrono : Chrono} {tables : UnicodeTables} {blake3 : Bytes → Digest32}
variable {fingerprint : Path → Bytes → String} {projectId : ProjectId} {turns : Nat}
variable {files : RepositoryFiles} {root : String}

/-! The fingerprints. -/

theorem strongAnchoredFileFingerprint_eq_ok {path : Path} {size : Nat} {text : String} :
    strongAnchoredFileFingerprint fingerprint files root path size = .ok text ↔
      ∃ content, files.entry path = some (.file content) ∧ content.length = size ∧
        fingerprint path content = text := by
  rw [strongAnchoredFileFingerprint]
  split
  · next hnone => simp [hnone]
  · next content hfile => simp [hfile]
  · next hother hentry =>
      simp only [reduceCtorEq, false_iff, not_exists, not_and]
      intro content hfile
      exact absurd (Option.some.inj (hentry.symm.trans hfile)) (hother content)

theorem fingerprint_of_candidates {candidates : List (Path × Nat)}
    {fingerprints : List (Path × String)}
    (h : fingerprintCandidates fingerprint files root candidates = .ok fingerprints)
    {candidate : Path × Nat} (hcandidate : candidate ∈ candidates) :
    ∃ content, files.entry candidate.1 = some (.file content) ∧
      content.length = candidate.2 ∧
      (fingerprints.find? fun entry => entry.1 == candidate.1).map Prod.snd =
        some (fingerprint candidate.1 content) := by
  rw [fingerprintCandidates, mapM_eq_ok_iff] at h
  induction h with
  | nil => cases hcandidate
  | @cons other entry rest entries hother hrest ih =>
      simp only [except_bind_eq_ok, except_pure_eq_ok] at hother
      rcases hother with ⟨text, htext, rfl⟩
      rcases strongAnchoredFileFingerprint_eq_ok.mp htext with ⟨content, hfile, hsize, rfl⟩
      by_cases hsame : other.1 = candidate.1
      · rcases List.mem_cons.mp hcandidate with rfl | hcandidate
        · exact ⟨content, hfile, hsize, by simp⟩
        · rcases ih hcandidate with ⟨known, hknown, hlength, -⟩
          have hcontent : content = known := by
            rw [hsame, hknown] at hfile
            cases hfile
            rfl
          refine ⟨known, hknown, hlength, ?_⟩
          simp [hsame, hcontent]
      · rcases List.mem_cons.mp hcandidate with rfl | hcandidate
        · exact absurd rfl hsame
        · rcases ih hcandidate with ⟨known, hknown, hlength, hfound⟩
          refine ⟨known, hknown, hlength, ?_⟩
          rw [List.find?_cons_of_neg (by simpa using hsame), hfound]

/-! The plan. -/

/-- What a snapshot of the inventory or the inventory's current state uses. -/
def GcUses (chrono : Chrono) (blake3 : Bytes → Digest32) (files : RepositoryFiles) (root : String)
    (projectId : ProjectId) (ids : List SnapshotId) (head : InventoryHead) :
    ContentStore → Digest32 → Prop
  | .object, id => SnapshotHolds chrono blake3 (files.snapshotRepository root) ids id
  | .manifestNode, id =>
      SnapshotReaches chrono blake3 (files.snapshotRepository root) ids ⟨.node, id⟩
  | .manifestLeaf, id =>
      SnapshotReaches chrono blake3 (files.snapshotRepository root) ids ⟨.leaf, id⟩
  | store, id => InventoryUses blake3 (files.inventoryStore root) projectId head store id

/-- A file of a content store that is not in use. -/
def Garbage (chrono : Chrono) (blake3 : Bytes → Digest32) (files : RepositoryFiles) (root : String)
    (projectId : ProjectId) (ids : List SnapshotId) (head : InventoryHead) (path : Path) : Prop :=
  ∃ store id content, path = ContentStore.filePath store id ∧
    files.entry path = some (.file content) ∧
    ¬ GcUses chrono blake3 files root projectId ids head store id

/-- What a plan lists, in terms of the marks. -/
structure PlanFound (blake3 : Bytes → Digest32) (fingerprint : Path → Bytes → String)
    (files : RepositoryFiles) (root : String) (projectId : ProjectId) (walk : ChunkWalk GcMarks)
    (skipped : List SkippedSnapshot) (analysis : StorageGcAnalysis) : Prop where
  blobs : ∀ candidate, candidate ∈ analysis.plan.blobs ↔ ∃ id content,
    candidate = (ContentStore.object.filePath id, content.length) ∧
    files.entry (ContentStore.object.filePath id) = some (.file content) ∧
    walk.marks.object id = none
  chunks : ∀ candidate, candidate ∈ analysis.plan.unreferencedManifestChunks ↔
    ∃ store kind, (store, kind) ∈ [(ContentStore.manifestNode, ChunkKind.node),
        (.manifestLeaf, .leaf)] ∧ ∃ id content,
      candidate = (store.filePath id, content.length) ∧
      files.entry (store.filePath id) = some (.file content) ∧ ⟨kind, id⟩ ∉ walk.chunks
  nodes : ∃ head, (files.inventoryStore root).inventoryHead blake3 projectId = .ok head ∧
    ∀ candidate, candidate ∈ analysis.plan.unreferencedInventoryNodes ↔
      UnusedNode blake3 files (files.inventoryStore root) projectId head candidate
  fingerprints : ∀ candidate ∈ analysis.plan.candidates, ∃ content,
    files.entry candidate.1 = some (.file content) ∧ content.length = candidate.2 ∧
    analysis.fingerprint candidate.1 = some (fingerprint candidate.1 content)
  skipped : analysis.plan.hasIntegrityProblems = false → skipped = []

theorem planGc_found (hclosed : files.Closed) {head : String} {walk : ChunkWalk GcMarks}
    {skipped : List SkippedSnapshot} {analysis : StorageGcAnalysis}
    (h : planGc blake3 fingerprint files root projectId head walk skipped = .ok analysis) :
    PlanFound blake3 fingerprint files root projectId walk skipped analysis := by
  simp only [planGc, except_bind_eq_ok, except_guard_eq_ok, except_pure_eq_ok] at h
  rcases h with ⟨stored, hstored, nodes, hnodes, fingerprints, hfingerprints, again, -, -, rfl⟩
  constructor
  case blobs =>
    intro candidate
    simp only [StorageGcPlan.blobs, List.map_map, List.mem_map, List.mem_filter,
      mem_enumerateLooseObjects hclosed, Function.comp_apply, Option.isNone_iff_eq_none]
    constructor
    · rintro ⟨⟨id, path⟩, ⟨⟨hpath, content, hfile⟩, hnone⟩, rfl⟩
      dsimp only at hpath hfile
      subst hpath
      rw [objectPath] at hfile
      exact ⟨id, content, by simp [objectPath, file_eq_some.mpr hfile], hfile, hnone⟩
    · rintro ⟨id, content, rfl, hfile, hnone⟩
      exact ⟨(id, objectPath id), ⟨⟨rfl, content, hfile⟩, hnone⟩,
        by simp [objectPath, file_eq_some.mpr hfile]⟩
  case chunks =>
    intro candidate
    rw [List.mem_mergeSort, List.mem_map]
    simp only [List.mem_filter, decide_eq_true_eq, mem_enumerateManifestChunks hclosed hstored]
    constructor
    · rintro ⟨⟨⟨kind, id⟩, path, size⟩, ⟨hlisted, hnot⟩, rfl⟩
      rcases hlisted with ⟨hkind, hpath, content, hfile, hsize⟩ |
        ⟨hkind, hpath, content, hfile, hsize⟩
      all_goals
        dsimp only at hkind hpath hfile hsize
        subst hkind hpath hsize
      · exact ⟨.manifestNode, .node, by simp, id, content, rfl, hfile, hnot⟩
      · exact ⟨.manifestLeaf, .leaf, by simp, id, content, rfl, hfile, hnot⟩
    · rintro ⟨store, kind, hmem, id, content, rfl, hfile, hnot⟩
      refine ⟨(⟨kind, id⟩, store.filePath id, content.length), ⟨?_, hnot⟩, rfl⟩
      simp only [List.mem_cons, Prod.mk.injEq, List.not_mem_nil, or_false] at hmem
      rcases hmem with ⟨rfl, rfl⟩ | ⟨rfl, rfl⟩
      · exact .inl ⟨rfl, rfl, content, hfile, rfl⟩
      · exact .inr ⟨rfl, rfl, content, hfile, rfl⟩
  case nodes => exact mem_inventoryGcCandidates hnodes
  case fingerprints =>
    intro candidate hcandidate
    apply fingerprint_of_candidates hfingerprints
    simp only [StorageGcPlan.candidates, StorageGcPlan.blobs, List.map_map] at hcandidate ⊢
    exact hcandidate
  case skipped =>
    intro hsound
    simp only [Bool.or_eq_false_iff, Bool.not_eq_false', List.isEmpty_iff] at hsound
    exact hsound.2

/-- Every candidate is at the place of a file of its stores. -/
theorem PlanFound.planned {walk : ChunkWalk GcMarks} {skipped : List SkippedSnapshot}
    {analysis : StorageGcAnalysis}
    (h : PlanFound blake3 fingerprint files root projectId walk skipped analysis) :
    PlannedAll files fingerprint analysis := by
  have hplanned : ∀ (stores : List ContentStore) (candidate : Path × Nat),
      candidate ∈ analysis.plan.candidates →
      (∃ store ∈ stores, ∃ id content, candidate = (store.filePath id, content.length) ∧
        files.entry (store.filePath id) = some (.file content)) →
      Planned files fingerprint analysis stores candidate := by
    rintro stores candidate hmem ⟨store, hstore, id, content, rfl, hfile⟩
    rcases h.fingerprints _ hmem with ⟨known, hknown, -, hfingerprint⟩
    rw [hfile] at hknown
    cases hknown
    exact ⟨store, hstore, id, content, rfl, hfile, hfingerprint⟩
  constructor
  case blobs =>
    intro candidate hmem
    apply hplanned _ _ (List.mem_append_left _ hmem)
    rcases (h.blobs candidate).mp hmem with ⟨id, content, heq, hfile, -⟩
    exact ⟨.object, by simp, id, content, heq, hfile⟩
  case chunks =>
    intro candidate hmem
    apply hplanned _ _ (List.mem_append_right _ (List.mem_append_left _ hmem))
    rcases (h.chunks candidate).mp hmem with ⟨store, kind, hstore, id, content, heq, hfile, -⟩
    refine ⟨store, ?_, id, content, heq, hfile⟩
    simp only [List.mem_cons, Prod.mk.injEq, List.not_mem_nil, or_false] at hstore ⊢
    exact hstore.imp And.left And.left
  case nodes =>
    intro candidate hmem
    apply hplanned _ _ (List.mem_append_right _ (List.mem_append_right _ hmem))
    rcases h.nodes with ⟨head, -, hnodes⟩
    rcases (hnodes candidate).mp hmem with ⟨store, hstore, id, content, heq, hfile, -⟩
    exact ⟨store, hstore, id, content, heq, hfile⟩

/-- The candidates of a plan without integrity problems are the files that are not in use. -/
theorem PlanFound.mem_candidates {walk : ChunkWalk GcMarks} {analysis : StorageGcAnalysis}
    (h : PlanFound blake3 fingerprint files root projectId walk [] analysis)
    {ids : List SnapshotId}
    (hmarked : MarkedExactly chrono blake3 (files.snapshotRepository root) ids walk)
    {head : InventoryHead}
    (hhead : (files.inventoryStore root).inventoryHead blake3 projectId = .ok head) (path : Path) :
    path ∈ analysis.plan.candidates.map Prod.fst ↔
      Garbage chrono blake3 files root projectId ids head path := by
  rcases h.nodes with ⟨known, hknown, hnodes⟩
  obtain rfl := Except.ok.inj (hhead.symm.trans hknown)
  have hobject : ∀ id, walk.marks.object id = none ↔
      ¬ GcUses chrono blake3 files root projectId ids head .object id := by
    intro id
    rw [GcUses, ← hmarked.object_ne_none, not_not]
  rw [List.mem_map]
  constructor
  · rintro ⟨candidate, hmem, rfl⟩
    rcases List.mem_append.mp hmem with hmem | hmem
    · rcases (h.blobs candidate).mp hmem with ⟨id, content, rfl, hfile, hnone⟩
      exact ⟨.object, id, content, rfl, hfile, (hobject id).mp hnone⟩
    · rcases List.mem_append.mp hmem with hmem | hmem
      · rcases (h.chunks candidate).mp hmem with ⟨store, kind, hstore, id, content, rfl, hfile,
          hnot⟩
        rw [hmarked.mem_chunks] at hnot
        simp only [List.mem_cons, Prod.mk.injEq, List.not_mem_nil, or_false] at hstore
        rcases hstore with ⟨rfl, rfl⟩ | ⟨rfl, rfl⟩
        · exact ⟨.manifestNode, id, content, rfl, hfile, hnot⟩
        · exact ⟨.manifestLeaf, id, content, rfl, hfile, hnot⟩
      · rcases (hnodes candidate).mp hmem with ⟨store, hstore, id, content, rfl, hfile, hnot⟩
        refine ⟨store, id, content, rfl, hfile, ?_⟩
        simp only [List.mem_cons, List.not_mem_nil, or_false] at hstore
        rcases hstore with rfl | rfl | rfl <;> exact hnot
  · rintro ⟨store, id, content, rfl, hfile, hnot⟩
    have hnode : UnusedNode blake3 files (files.inventoryStore root) projectId head
        (store.filePath id, content.length) →
        ∃ candidate ∈ analysis.plan.candidates, candidate.1 = store.filePath id := fun hunused =>
      ⟨_, List.mem_append_right _ (List.mem_append_right _ ((hnodes _).mpr hunused)), rfl⟩
    cases store with
    | object =>
        exact ⟨_, List.mem_append_left _ ((h.blobs _).mpr
          ⟨id, content, rfl, hfile, (hobject id).mpr hnot⟩), rfl⟩
    | manifestNode =>
        exact ⟨_, List.mem_append_right _ (List.mem_append_left _ ((h.chunks _).mpr
          ⟨.manifestNode, .node, by simp, id, content, rfl, hfile,
            mt hmarked.mem_chunks.mp hnot⟩)), rfl⟩
    | manifestLeaf =>
        exact ⟨_, List.mem_append_right _ (List.mem_append_left _ ((h.chunks _).mpr
          ⟨.manifestLeaf, .leaf, by simp, id, content, rfl, hfile,
            mt hmarked.mem_chunks.mp hnot⟩)), rfl⟩
    | inventoryState => exact hnode ⟨.inventoryState, by simp, id, content, rfl, hfile, hnot⟩
    | inventorySetRoot => exact hnode ⟨.inventorySetRoot, by simp, id, content, rfl, hfile, hnot⟩
    | inventorySetLeaf => exact hnode ⟨.inventorySetLeaf, by simp, id, content, rfl, hfile, hnot⟩

/-! The whole collection. -/

theorem analyzeGcForProject_eq_ok {analysis : StorageGcAnalysis}
    (h : analyzeGcForProject blake3 chrono tables fingerprint files root projectId turns =
      some (.ok analysis)) :
    ∃ headText ids walk skipped,
      files.validatePhysicalSnapshotInventory blake3 root projectId = .ok ids ∧
      markSnapshots chrono tables blake3 (files.snapshotRepository root) projectId turns ids
        .empty ⟨∅, .empty⟩ = some (walk, skipped) ∧
      planGc blake3 fingerprint files root projectId headText walk skipped = .ok analysis := by
  rw [analyzeGcForProject] at h
  cases hinspected : inspectedSnapshots blake3 files root projectId with
  | error error =>
      rw [hinspected] at h
      cases h
  | ok inspected =>
      rcases inspected with ⟨headText, ids⟩
      simp only [hinspected, Option.map_eq_some_iff] at h
      rcases h with ⟨⟨walk, skipped⟩, hmarks, hplan⟩
      simp only [inspectedSnapshots, except_bind_eq_ok, except_pure_eq_ok, Prod.mk.injEq]
        at hinspected
      rcases hinspected with ⟨_, -, _, -, _, hids, -, rfl⟩
      exact ⟨headText, _, walk, skipped, hids, hmarks, hplan⟩

/-- What is garbage by the inventory that the repository had before the collection. -/
def CollectedFrom (chrono : Chrono) (blake3 : Bytes → Digest32) (files : RepositoryFiles)
    (root : String) (projectId : ProjectId) (garbage : List Path) : Prop :=
  ∃ ids head, files.validatePhysicalSnapshotInventory blake3 root projectId = .ok ids ∧
    (files.inventoryStore root).inventoryHead blake3 projectId = .ok head ∧
    ∀ path, path ∈ garbage ↔ Garbage chrono blake3 files root projectId ids head path

theorem collectedFrom_of_analysis (hclosed : files.Closed) {analysis : StorageGcAnalysis}
    (h : analyzeGcForProject blake3 chrono tables fingerprint files root projectId turns =
      some (.ok analysis)) (hsound : analysis.plan.hasIntegrityProblems = false) :
    CollectedFrom chrono blake3 files root projectId
      (analysis.plan.candidates.map Prod.fst) := by
  rcases analyzeGcForProject_eq_ok h with ⟨headText, ids, walk, skipped, hids, hmarks, hplan⟩
  have hfound := planGc_found hclosed hplan
  obtain rfl := hfound.skipped hsound
  have hmarked := markSnapshots_marked markedExactly_empty hmarks
  rw [List.nil_append] at hmarked
  rcases hfound.nodes with ⟨head, hhead, -⟩
  exact ⟨ids, head, hids, hhead, hfound.mem_candidates hmarked hhead⟩

variable {uuid : RepositoryFiles → Path → Nat → String} {refuses : Refusals}

/-- The analysis finds the expected plan, and no integrity problems. -/
def Collectable (chrono : Chrono) (tables : UnicodeTables) (blake3 : Bytes → Digest32)
    (fingerprint : Path → Bytes → String) (files : RepositoryFiles) (root : String)
    (projectId : ProjectId) (turns : Nat) (expectedPlanId : String) : Prop :=
  ∃ analysis, analyzeGcForProject blake3 chrono tables fingerprint files root projectId turns =
    some (.ok analysis) ∧ analysis.plan.Applicable expectedPlanId

/-- A collection has returned: what was garbage is gone, and nothing else, or the system
refused a step after a part of it was gone. -/
def CollectionEnd (refuses : Refusals) (chrono : Chrono) (blake3 : Bytes → Digest32)
    (files : RepositoryFiles) (root : String) (projectId : ProjectId)
    (result : Option StorageGcResult) (state : RepositoryFiles) : Prop :=
  ∃ done garbage, result = some done ∧
    CollectedFrom chrono blake3 files root projectId garbage ∧
    SweepEnd refuses files garbage done state

/-- A collection was refused a step before anything was gone. -/
def CollectionRefused (refuses : Refusals) (chrono : Chrono) (blake3 : Bytes → Digest32)
    (files : RepositoryFiles) (root : String) (projectId : ProjectId) (state : RepositoryFiles) :
    Prop :=
  ∃ garbage, CollectedFrom chrono blake3 files root projectId garbage ∧
    Spared refuses files garbage state

/-- A collection was cut short: nothing but garbage is gone. -/
def CollectionCut (chrono : Chrono) (blake3 : Bytes → Digest32) (files : RepositoryFiles)
    (root : String) (projectId : ProjectId) (state : RepositoryFiles) : Prop :=
  ∃ garbage, CollectedFrom chrono blake3 files root projectId garbage ∧
    SweepCrash files garbage state

/-- A plan that is applied deletes its candidates, or nothing. -/
theorem applyGc_collects (huuid : UnusedIds uuid) (htruthful : refuses.Truthful)
    (hclosed : files.Closed) {analysis : StorageGcAnalysis}
    (h : analyzeGcForProject blake3 chrono tables fingerprint files root projectId turns =
      some (.ok analysis)) (expectedPlanId : String) :
    CrashTriple (fun state => state = files)
      (applyGc root uuid refuses fingerprint expectedPlanId analysis)
      (fun result state => analysis.plan.Applicable expectedPlanId ∧
        CollectionEnd refuses chrono blake3 files root projectId (some result) state)
      (fun _ state => ¬ analysis.plan.Applicable expectedPlanId ∧ state = files ∨
        CollectionRefused refuses chrono blake3 files root projectId state)
      (CollectionCut chrono blake3 files root projectId) := by
  rcases analyzeGcForProject_eq_ok h with ⟨headText, ids, walk, skipped, hids, hmarks, hplan⟩
  have hplanned := (planGc_found hclosed hplan).planned
  by_cases hsound : analysis.plan.hasIntegrityProblems = true
  · have hnot : ¬ analysis.plan.Applicable expectedPlanId := fun happlicable => by
      rw [happlicable.2] at hsound
      cases hsound
    rw [applyGc]
    exact .ite (fun _ => .lift_error fun _ heq => .inl ⟨hnot, heq⟩) fun _ =>
      .ite (fun _ => .lift_error fun _ heq => .inl ⟨hnot, heq⟩) fun hno => absurd hsound hno
  · rw [Bool.not_eq_true] at hsound
    have hfrom := collectedFrom_of_analysis hclosed h hsound
    have happly := @applyGc_triple files root uuid refuses fingerprint huuid htruthful hclosed
      analysis hplanned expectedPlanId
    refine happly.weaken (fun _ heq => heq) (fun result _ hdone => ?_) (fun _ _ hfailed => ?_)
      fun _ hcrash => ⟨_, hfrom, hcrash⟩
    · exact ⟨hdone.1, result, _, rfl, hfrom, hdone.2⟩
    · exact hfailed.imp_right fun hspared => ⟨_, hfrom, hspared⟩

theorem analyzeGcForProject_ne_none
    (hturns : 1 + openEdges (storedGraph blake3
      (files.snapshotRepository root).loadManifestChunk) ∅ ≤ turns) :
    analyzeGcForProject blake3 chrono tables fingerprint files root projectId turns ≠ none := by
  rw [analyzeGcForProject]
  split
  · exact Option.some_ne_none _
  · rw [Ne, Option.map_eq_none_iff]
    exact markSnapshots_ne_none hturns

/-- A collection that completes has deleted what is garbage and nothing else, and every
collection of an expected plan without problems completes that is refused no step.  One that
returns without completing has deleted a part of the garbage, one that fails has deleted
nothing, and one that is cut short has kept everything that is in use.  What is not deleted is
at its own name or, for one entry at most, under a tombstone name next to it. -/
theorem garbageCollection_exact (chrono : Chrono) (tables : UnicodeTables)
    (blake3 : Bytes → Digest32) (fingerprint : Path → Bytes → String) (projectId : ProjectId)
    (root expectedPlanId : String) {files : RepositoryFiles} (hclosed : files.Closed)
    {uuid : RepositoryFiles → Path → Nat → String} (huuid : UnusedIds uuid)
    {refuses : Refusals} (htruthful : refuses.Truthful) :
    ∃ bound, ∀ turns, bound ≤ turns → CrashTriple (fun state => state = files)
      (applyGcInternal root uuid refuses fingerprint chrono tables blake3 projectId turns
        expectedPlanId)
      (fun result state =>
        Collectable chrono tables blake3 fingerprint files root projectId turns expectedPlanId ∧
          CollectionEnd refuses chrono blake3 files root projectId result state)
      (fun _ state =>
        ¬ Collectable chrono tables blake3 fingerprint files root projectId turns expectedPlanId ∧
            state = files ∨
          CollectionRefused refuses chrono blake3 files root projectId state)
      (CollectionCut chrono blake3 files root projectId) := by
  refine ⟨1 + openEdges (storedGraph blake3 (files.snapshotRepository root).loadManifestChunk) ∅,
    fun turns hturns => ?_⟩
  have hanalyzed := @analyzeGcForProject_ne_none chrono tables blake3 fingerprint projectId turns
    files root hturns
  rcases hanalysis : analyzeGcForProject blake3 chrono tables fingerprint files root projectId turns
    with _ | error | analysis
  · exact absurd hanalysis hanalyzed
  · have hnot : ¬ Collectable chrono tables blake3 fingerprint files root projectId turns
        expectedPlanId := by
      rintro ⟨analysis, hok, -⟩
      rw [hanalysis] at hok
      cases hok
    rintro state rfl
    rw [Durable.final, applyGcInternal, Durable.inspect_bind_run, hanalysis]
    exact ⟨List.forall_mem_nil _, .inl ⟨hnot, rfl⟩⟩
  · have hiff : analysis.plan.Applicable expectedPlanId ↔
        Collectable chrono tables blake3 fingerprint files root projectId turns expectedPlanId := by
      rw [Collectable, hanalysis]
      simp
    have hcollect : CrashTriple (fun state => state = files)
        (applyGc root uuid refuses fingerprint expectedPlanId analysis >>= fun result =>
          pure (some result))
        (fun result state => analysis.plan.Applicable expectedPlanId ∧
          CollectionEnd refuses chrono blake3 files root projectId result state)
        (fun _ state => ¬ analysis.plan.Applicable expectedPlanId ∧ state = files ∨
          CollectionRefused refuses chrono blake3 files root projectId state)
        (CollectionCut chrono blake3 files root projectId) :=
      (applyGc_collects huuid htruthful hclosed hanalysis expectedPlanId).bind fun _ =>
        .pure fun _ hend => hend
    rw [hiff] at hcollect
    rintro state rfl
    rw [Durable.final, applyGcInternal, Durable.inspect_bind_run, hanalysis]
    exact hcollect state rfl

end Hash

theorem granted_truthful : granted.Truthful := nofun

namespace Sample

/-! A new repository with one object that nothing refers to. -/

def zeroHash (_ : Bytes) : Digest32 := zeroDigest

def emptyState : InventoryState := firstState firstProject zeroDigest

def strayFiles : RepositoryFiles := .ofList [
  ([], .directory),
  (["objects"], .directory),
  (["objects", "loose"], .directory),
  (["objects", "loose", "00"], .directory),
  (objectPath zeroDigest, .file [0]),
  (["manifests"], .directory),
  (["manifests", "v2"], .directory),
  (["manifests", "v2", "nodes"], .directory),
  (["manifests", "v2", "leaves"], .directory),
  (["snapshots"], .directory),
  (["snapshots", "v2"], .directory),
  (["inventory"], .directory),
  (["inventory", "snapshots"], .directory),
  (inventoryHeadPath, .file (headBytes zeroDigest)),
  (["inventory", "snapshots", "states"], .directory),
  (["inventory", "snapshots", "states", "00"], .directory),
  (inventoryStatePath zeroDigest, .file (encodeState emptyState)),
  (["inventory", "snapshots", "sets"], .directory),
  (["inventory", "snapshots", "sets", "roots"], .directory),
  (["inventory", "snapshots", "sets", "roots", "00"], .directory),
  (inventorySetRootPath zeroDigest, .file (rootBytesAt 0)),
  (["inventory", "snapshots", "sets", "leaves"], .directory)]

theorem closed_strayFiles : strayFiles.Closed := by
  intro path name hentry
  have hmem := (strayFiles.mem_paths _).mpr hentry
  rw [strayFiles, FileTree.ofList, List.mem_toFinset, List.mem_map] at hmem
  rcases hmem with ⟨entry, hmem, hpath⟩
  have hparent : path = entry.1.dropLast := by
    rw [hpath, List.dropLast_concat]
  have hne : entry.1 ≠ [] := by
    rw [hpath]
    simp
  rw [hparent]
  clear hpath hparent hentry
  revert entry
  decide +kernel

/-- The directories that are empty, those of the snapshots and the chunks among them, and the
stores with one file. -/
theorem strayFiles_layout :
    (∀ path ∈ [snapshotsDir, ContentStore.manifestNode.directory,
        ContentStore.manifestLeaf.directory, ContentStore.inventorySetLeaf.directory],
      strayFiles.entry path = some .directory ∧ strayFiles.below path = ∅) ∧
    ∀ store ∈ [ContentStore.object, .inventoryState, .inventorySetRoot],
      strayFiles.entry store.directory = some .directory ∧
      strayFiles.entry (store.shardPath zeroDigest.firstByte) = some .directory ∧
      strayFiles.below store.directory =
        insert (store.shardPath zeroDigest.firstByte) {store.filePath zeroDigest} := by
  decide +kernel

theorem strayFiles_empty {path : Path}
    (h : path ∈ [snapshotsDir, ContentStore.manifestNode.directory,
      ContentStore.manifestLeaf.directory, ContentStore.inventorySetLeaf.directory]) :
    strayFiles.entry path = some .directory ∧ strayFiles.walk path = [] := by
  rcases strayFiles_layout.1 path h with ⟨hdirectory, hbelow⟩
  rw [FileTree.walk, hbelow, Finset.sort_empty]
  exact ⟨hdirectory, rfl⟩

/-- A store with one file is walked from its shard to the file. -/
theorem walk_single {files : RepositoryFiles} {store : ContentStore} {id : Digest32}
    (hbelow : files.below store.directory =
      insert (store.shardPath id.firstByte) {store.filePath id}) :
    files.walk store.directory = [store.shardPath id.firstByte, store.filePath id] := by
  have hle : store.shardPath id.firstByte ≤ store.filePath id := by
    have hlt := List.Lex.append_left (· < ·) (List.Lex.nil : List.Lex (· < ·) []
      [id.toHex ++ store.suffix]) (store.shardPath id.firstByte)
    rw [List.append_nil] at hlt
    exact le_of_lt hlt
  have hne : store.shardPath id.firstByte ∉ ({store.filePath id} : Finset Path) := by
    simp [ContentStore.filePath]
  rw [FileTree.walk, hbelow, Finset.sort_insert (· ≤ ·) ?_ hne, Finset.sort_singleton]
  exact fun path hpath => Finset.mem_singleton.mp hpath ▸ hle

theorem strayFiles_inventory :
    strayFiles.file inventoryHeadPath = some (headBytes zeroDigest) ∧
      strayFiles.file (inventoryStatePath zeroDigest) = some (encodeState emptyState) ∧
      strayFiles.file (inventorySetRootPath zeroDigest) = some (rootBytesAt 0) ∧
      strayFiles.file (objectPath zeroDigest) = some [0] := by
  simp [strayFiles, FileTree.ofList, FileTree.file, List.lookup_cons, inventoryHeadPath, objectPath,
    inventoryStatePath, inventorySetRootPath, ContentStore.filePath, ContentStore.shardPath,
    ContentStore.directory]

theorem strayFiles_head : (strayFiles.inventoryStore "repo").inventoryHead zeroHash firstProject =
    .ok ⟨zeroDigest, emptyState⟩ := by
  rcases strayFiles_inventory with ⟨hhead, hstate, -, -⟩
  have hshape : emptyState.validShape = true := rfl
  exact inventoryHead_eq_ok.mpr ⟨headBytes zeroDigest, hhead, (length_headBytes zeroDigest).le,
    zeroDigest, parseHead_headBytes _ zeroDigest, loadState_eq_ok.mpr ⟨rfl, hstate, rfl, hshape, rfl⟩⟩

theorem strayFiles_root : (strayFiles.inventoryStore "repo").loadStateRoot zeroHash firstProject
    emptyState = .ok (emptySetRoot firstProject) :=
  loadStateRoot_eq_ok.mpr ⟨loadSetRoot_eq_ok.mpr ⟨rootBytesAt 0, encode_rootAt 0,
    strayFiles_inventory.2.2.1, rfl, emptySetRoot_slotsValid firstProject, rfl⟩, rfl⟩

theorem strayFiles_snapshots :
    strayFiles.validatePhysicalSnapshotInventory zeroHash "repo" firstProject = .ok [] := by
  have hids : (strayFiles.inventoryStore "repo").loadInventoryIds zeroHash firstProject emptyState =
      .ok ∅ := by
    rw [loadInventoryIds_eq_ok]
    refine ⟨emptySetRoot firstProject, strayFiles_root, rfl, fun idPrefix => ?_⟩
    rw [slot_emptySetRoot]
    exact shard_empty
  rcases @strayFiles_empty snapshotsDir (by simp) with ⟨hdirectory, hwalk⟩
  have hlisted : strayFiles.listSnapshotIds "repo" = .ok ∅ := by
    rw [RepositoryFiles.listSnapshotIds, hdirectory, hwalk]
    rfl
  rw [RepositoryFiles.validatePhysicalSnapshotInventory_ok strayFiles_head hids hlisted,
    Finset.sort_empty]

theorem strayFiles_inspected : inspectedSnapshots zeroHash strayFiles "repo" firstProject =
    .ok (zeroDigest.toHex, []) := by
  rcases @strayFiles_empty snapshotsDir (by simp) with ⟨hdirectory, hwalk⟩
  simp [inspectedSnapshots, strayFiles_head, strayFiles_snapshots,
    RepositoryFiles.validateSnapshotRootInventory, hdirectory, hwalk]

theorem strayFiles_object : strayFiles.entry (objectPath zeroDigest) = some (.file [0]) :=
  file_eq_some.mp strayFiles_inventory.2.2.2

theorem strayFiles_objects : strayFiles.enumerateLooseObjects =
    ⟨[(zeroDigest, objectPath zeroDigest)], []⟩ := by
  rcases strayFiles_layout.2 .object (by simp) with ⟨hdirectory, hshard, hbelow⟩
  have hextension : extension ((objectPath zeroDigest).getLastD "") ≠ some "tmp" := by
    rw [objectPath, ContentStore.filePath, List.getLastD_concat, ContentStore.suffix,
      String.append_empty, extension_toHex]
    exact (Option.some_ne_none _).symm
  have hid := objectIdFromLooseRelativePath_eq_ok.mpr (rfl : objectPath zeroDigest = _)
  rw [RepositoryFiles.enumerateLooseObjects, if_neg (by rw [hdirectory]; exact Option.some_ne_none _),
    walk_single hbelow, ← objectPath]
  simp only [List.foldl_cons, List.foldl_nil, RepositoryFiles.visitLooseEntry, hdirectory, hshard,
    strayFiles_object, if_neg hextension, hid, List.nil_append]

theorem strayFiles_chunks : strayFiles.enumerateManifestChunks "repo" = .ok ⟨[], []⟩ := by
  have hnodes := @strayFiles_empty ContentStore.manifestNode.directory (by simp)
  have hleaves := @strayFiles_empty ContentStore.manifestLeaf.directory (by simp)
  simp [RepositoryFiles.enumerateManifestChunks, RepositoryFiles.enumerateManifestStore, hnodes,
    hleaves]

/-- A store with one file, which is in use. -/
theorem visitInventoryStore_used {files : RepositoryFiles} {store : ContentStore} {id : Digest32}
    {content : Bytes} {reachable : Finset Path}
    (hbelow : files.below store.directory =
      insert (store.shardPath id.firstByte) {store.filePath id})
    (hdirectory : files.entry store.directory = some .directory)
    (hshard : files.entry (store.shardPath id.firstByte) = some .directory)
    (hfile : files.entry (store.filePath id) = some (.file content))
    (hmem : store.filePath id ∈ reachable) (candidates : List (Path × Nat)) :
    files.visitInventoryStore "repo" reachable candidates store = .ok candidates := by
  have hdrop : (store.shardPath id.firstByte).drop store.directory.length =
      [hexByte id.firstByte] := by
    rw [ContentStore.shardPath, List.drop_left]
  rw [RepositoryFiles.visitInventoryStore, if_neg (by rw [hdirectory]; exact Option.some_ne_none _),
    walk_single hbelow]
  simp only [List.foldlM_cons, List.foldlM_nil, RepositoryFiles.visitInventoryEntry, hshard, hdrop,
    RepositoryFiles.isLowerHex_hexByte, if_true, except_bind_ok, hfile, validateInventoryContentPath_filePath, if_pos hmem]
  rfl

/-- The files of an inventory that has its first state and no ids. -/
theorem inventoryGcCandidates_first {files : RepositoryFiles} {head : InventoryHead}
    {candidates : List (Path × Nat)}
    (hhead : (files.inventoryStore "repo").inventoryHead zeroHash firstProject = .ok head)
    (hparent : head.state.parent = none)
    (hroot : (files.inventoryStore "repo").loadStateRoot zeroHash firstProject head.state =
      .ok (emptySetRoot firstProject))
    (hvisited : [ContentStore.inventoryState, .inventorySetRoot, .inventorySetLeaf].foldlM
      (files.visitInventoryStore "repo"
        {inventorySetRootPath head.state.setRoot, inventoryStatePath head.id}) [] =
        .ok candidates) :
    RepositoryFiles.inventoryGcCandidates zeroHash files "repo" firstProject =
      .ok (candidates.mergeSort fun left right => decide (left.1 ≤ right.1)) := by
  have hstates : RepositoryFiles.reachableStates zeroHash (files.inventoryStore "repo")
      firstProject head ∅ ∅ = .ok {inventoryStatePath head.id} := by
    rw [RepositoryFiles.reachableStates, if_neg (Finset.notMem_empty _), hparent]
    rfl
  have hleaves : ∀ (slots : List (Option LeafRef × Nat)) (reachable : Finset Path),
      (∀ slot ∈ slots, slot.1 = none) → slots.foldlM
        (RepositoryFiles.reachableLeaf zeroHash (files.inventoryStore "repo") firstProject)
        reachable = .ok reachable := by
    intro slots reachable hslots
    induction slots with
    | nil => rfl
    | cons slot rest ih =>
        rw [List.forall_mem_cons] at hslots
        rw [List.foldlM_cons, RepositoryFiles.reachableLeaf, hslots.1]
        exact ih hslots.2
  have hnone : ∀ slot ∈ (emptySetRoot firstProject).leaves.zipIdx, slot.1 = none :=
    fun slot hslot => (List.mem_replicate.mp (List.fst_mem_of_mem_zipIdx hslot)).2
  simp only [RepositoryFiles.inventoryGcCandidates, hhead, except_bind_ok, hroot, hstates,
    hleaves _ _ hnone]
  rw [hvisited]
  rfl

theorem strayFiles_nodes : RepositoryFiles.inventoryGcCandidates zeroHash strayFiles "repo"
    firstProject = .ok [] := by
  rcases strayFiles_inventory with ⟨-, hstate, hroot, -⟩
  have hused : ∀ store ∈ [ContentStore.inventoryState, .inventorySetRoot], ∀ content reachable,
      strayFiles.file (store.filePath zeroDigest) = some content →
      store.filePath zeroDigest ∈ reachable → ∀ candidates,
      strayFiles.visitInventoryStore "repo" reachable candidates store = .ok candidates := by
    intro store hstore content reachable hfile hmem candidates
    rcases strayFiles_layout.2 store (List.mem_cons_of_mem _ hstore) with
      ⟨hdirectory, hshard, hbelow⟩
    exact visitInventoryStore_used hbelow hdirectory hshard (file_eq_some.mp hfile) hmem candidates
  have hempty : ∀ reachable candidates, strayFiles.visitInventoryStore "repo" reachable candidates
      .inventorySetLeaf = .ok candidates := by
    intro reachable candidates
    rcases @strayFiles_empty ContentStore.inventorySetLeaf.directory (by simp) with
      ⟨hdirectory, hwalk⟩
    rw [RepositoryFiles.visitInventoryStore, if_neg (by rw [hdirectory]; exact Option.some_ne_none _), hwalk]
    rfl
  have hvisited : [ContentStore.inventoryState, .inventorySetRoot, .inventorySetLeaf].foldlM
      (strayFiles.visitInventoryStore "repo"
        {inventorySetRootPath emptyState.setRoot, inventoryStatePath zeroDigest}) [] =
        .ok [] := by
    rw [List.foldlM_cons, hused .inventoryState (by simp) _ _ hstate (by simp [inventoryStatePath]),
      except_bind_ok, List.foldlM_cons, hused .inventorySetRoot (by simp) _ _ hroot
        (by simp [inventorySetRootPath, emptyState, firstState]), except_bind_ok,
      List.foldlM_cons, hempty]
    rfl
  rw [inventoryGcCandidates_first strayFiles_head rfl strayFiles_root hvisited, List.mergeSort_nil]

def blankChrono : Chrono := ⟨fun _ => none, fun _ _ => none⟩

def blankFingerprint (_ : Path) (_ : Bytes) : String := ""

/-- A plan that deletes one object. -/
theorem planGc_object {files : RepositoryFiles} {head : InventoryHead} {id : ObjectId}
    {content : Bytes} (hobjects : files.enumerateLooseObjects = ⟨[(id, objectPath id)], []⟩)
    (hfile : files.entry (objectPath id) = some (.file content))
    (hchunks : files.enumerateManifestChunks "repo" = .ok ⟨[], []⟩)
    (hnodes : RepositoryFiles.inventoryGcCandidates zeroHash files "repo" firstProject = .ok [])
    (hhead : (files.inventoryStore "repo").inventoryHead zeroHash firstProject = .ok head) :
    ∃ analysis, planGc zeroHash blankFingerprint files "repo" firstProject head.id.toHex
      ⟨∅, .empty⟩ [] = .ok analysis ∧ analysis.plan.Applicable zeroDigest.toHex := by
  have hprints : fingerprintCandidates blankFingerprint files "repo"
      [(objectPath id, content.length)] = .ok [(objectPath id, "")] := by
    simp [fingerprintCandidates, strongAnchoredFileFingerprint, hfile, blankFingerprint]
  have hunmarked : GcMarks.empty.object id = none := rfl
  simp only [planGc, show GcMarks.empty.objects = [] from rfl,
    show GcMarks.empty.problems = [] from rfl, List.mergeSort_nil, checkReferences,
    hobjects, hchunks, hnodes, hhead, hunmarked, except_bind_ok, List.filter_cons,
    List.filter_nil, Option.isNone_none, if_true, List.map_cons, List.map_nil,
    file_eq_some.mpr hfile, Option.map_some, Option.getD_some, List.append_nil, hprints]
  rw [if_neg (not_not.mpr rfl)]
  exact ⟨_, rfl, rfl, rfl⟩

theorem strayFiles_collectable (turns : Nat) : Collectable blankChrono tables zeroHash
    blankFingerprint strayFiles "repo" firstProject turns zeroDigest.toHex := by
  rcases planGc_object strayFiles_objects strayFiles_object strayFiles_chunks strayFiles_nodes
    strayFiles_head with ⟨analysis, hplan, happlicable⟩
  refine ⟨analysis, ?_, happlicable⟩
  rw [analyzeGcForProject, strayFiles_inspected, ← hplan]
  rfl

def strayCollection (turns : Nat) : RepositoryM (Option StorageGcResult) :=
  applyGcInternal "repo" lengthyName granted blankFingerprint blankChrono tables zeroHash
    firstProject turns zeroDigest.toHex

theorem strayFiles_garbage {garbage : List Path}
    (h : CollectedFrom blankChrono zeroHash strayFiles "repo" firstProject garbage) :
    objectPath zeroDigest ∈ garbage ∧ inventoryHeadPath ∉ garbage := by
  rcases h with ⟨ids, head, hids, -, hgarbage⟩
  obtain rfl := Except.ok.inj (strayFiles_snapshots.symm.trans hids)
  rw [hgarbage, hgarbage]
  constructor
  · refine ⟨.object, zeroDigest, [0], rfl, strayFiles_object, ?_⟩
    rintro ⟨reference, ⟨id, hid, -⟩, -⟩
    exact absurd hid List.not_mem_nil
  · rintro ⟨store, id, content, hpath, -⟩
    cases store <;> simp [inventoryHeadPath, ContentStore.filePath, ContentStore.shardPath,
      ContentStore.directory] at hpath

theorem strayFiles_headFile : strayFiles.entry inventoryHeadPath ≠ some .directory := by
  rw [file_eq_some.mp strayFiles_inventory.1]
  exact nofun

/-- What such a collection leaves of a file that is garbage and of one that is not. -/
theorem completed_of_collectable {turns : Nat} {expectedPlanId : String} {files : RepositoryFiles}
    {program : RepositoryM (Option StorageGcResult)} {stray kept : Path}
    {crash : RepositoryFiles → Prop}
    (h : CrashTriple (fun state => state = files) program
      (fun result state => Collectable blankChrono tables zeroHash blankFingerprint files "repo"
          firstProject turns expectedPlanId ∧
        CollectionEnd granted blankChrono zeroHash files "repo" firstProject result state)
      (fun _ state => ¬ Collectable blankChrono tables zeroHash blankFingerprint files "repo"
            firstProject turns expectedPlanId ∧ state = files ∨
        CollectionRefused granted blankChrono zeroHash files "repo" firstProject state) crash)
    (hcollectable : Collectable blankChrono tables zeroHash blankFingerprint files "repo"
      firstProject turns expectedPlanId)
    (hgarbage : ∀ garbage, CollectedFrom blankChrono zeroHash files "repo" firstProject garbage →
      stray ∈ garbage ∧ kept ∉ garbage) (hkept : files.entry kept ≠ some .directory) :
    ∃ done, (program.run files).2 = .ok (some done) ∧ done.completed = true ∧
      (program.final files).entry stray = none ∧
      (program.final files).entry kept = files.entry kept := by
  rcases h files rfl with ⟨-, hresult⟩
  split at hresult
  · next result hok =>
      rcases hresult with ⟨-, done, garbage, rfl, hfrom, hend⟩
      rcases hend with ⟨hcompleted, hswept, hgone⟩ | ⟨hrefused, -⟩
      · rcases hgarbage garbage hfrom with ⟨hstray, hnot⟩
        exact ⟨done, hok, hcompleted, hgone stray hstray, hswept.kept kept hnot hkept⟩
      · exact absurd rfl hrefused
  · rcases hresult with ⟨hnot, -⟩ | ⟨-, -, hrefused, -⟩
    · exact absurd hcollectable hnot
    · exact absurd rfl hrefused

end Sample

/-- The object goes, and the head of the inventory stays. -/
theorem garbageCollection_exact_stray : ∃ bound, ∀ turns, bound ≤ turns →
    ∃ done, ((Sample.strayCollection turns).run Sample.strayFiles).2 = .ok (some done) ∧
      done.completed = true ∧
      ((Sample.strayCollection turns).final Sample.strayFiles).entry (objectPath zeroDigest) =
        none ∧
      ((Sample.strayCollection turns).final Sample.strayFiles).entry inventoryHeadPath =
        Sample.strayFiles.entry inventoryHeadPath := by
  rcases garbageCollection_exact Sample.blankChrono Sample.tables Sample.zeroHash
    Sample.blankFingerprint firstProject "repo" zeroDigest.toHex Sample.closed_strayFiles
    Sample.lengthyName_unused granted_truthful with ⟨bound, hbound⟩
  refine ⟨bound, fun turns hturns => ?_⟩
  rw [Sample.strayCollection]
  exact Sample.completed_of_collectable (hbound turns hturns)
    (Sample.strayFiles_collectable turns) (fun _ => Sample.strayFiles_garbage)
    Sample.strayFiles_headFile

end CheckPo
