/-
What the marking of a garbage collection finds: exactly the chunks and the objects that the
snapshots reach.
-/
import CheckPo.GarbageAnalysis

namespace CheckPo

/-! What an entry leaves in the marks. -/

theorem GcMarks.object_append {marks : GcMarks} {id other : ObjectId}
    {reference : ReferencedObject} :
    ({ marks with objects := marks.objects ++ [(other, reference)] } : GcMarks).object id =
      (marks.object id).or (if other = id then some reference else none) := by
  simp only [GcMarks.object, List.find?_append, List.find?_singleton, beq_iff_eq]
  cases marks.objects.find? fun entry => entry.1 == id with
  | some found => rfl
  | none =>
      by_cases hsame : other = id
      · simp [hsame]
      · simp [hsame]

theorem GcMarks.problems_addProblem (marks : GcMarks) (id : ObjectId) (problem : String) :
    (marks.addProblem id problem).problems ≠ [] := by
  rw [addProblem]
  split
  · next hany =>
      intro hnone
      rw [hnone] at hany
      cases hany
  · exact List.append_ne_nil_of_right_ne_nil _ (List.cons_ne_nil _ _)

@[simp] theorem GcMarks.objects_addProblem (marks : GcMarks) (id : ObjectId) (problem : String) :
    (marks.addProblem id problem).objects = marks.objects := by
  rw [addProblem]
  split <;> rfl

@[simp] theorem GcMarks.object_addProblem (marks : GcMarks) (id other : ObjectId)
    (problem : String) : (marks.addProblem id problem).object other = marks.object other := by
  rw [object, object, objects_addProblem]

/-- The entry's object is marked, with the entry's size while there are no problems. -/
def MarksEntry (marks : GcMarks) (entry : LeafEntry) : Prop :=
  ∃ reference, marks.object entry.objectId = some reference ∧
    (marks.problems = [] → reference.expectedSizeBytes = entry.sizeBytes)

theorem markEntry_notes (snapshotId : SnapshotId) : Notes (markEntry snapshotId) MarksEntry := by
  intro marks entry marks' h
  simp only [markEntry, except_bind_eq_ok] at h
  rcases h with ⟨path, hpath, h⟩
  cases hobject : marks.object entry.objectId with
  | none =>
      simp only [hobject, except_pure_eq_ok] at h
      subst h
      constructor
      · refine ⟨⟨⟨snapshotId, path, entry.objectId⟩, entry.sizeBytes⟩, ?_, fun _ => rfl⟩
        rw [GcMarks.object_append, hobject, if_pos rfl, Option.none_or]
      · rintro other ⟨reference, hreference, hsize⟩
        refine ⟨reference, ?_, hsize⟩
        rw [GcMarks.object_append, hreference, Option.some_or]
  | some known =>
      simp only [hobject] at h
      split at h
      · rw [except_pure_eq_ok] at h
        subst h
        constructor
        · refine ⟨known, ?_, fun hnone => absurd hnone (GcMarks.problems_addProblem _ _ _)⟩
          rw [GcMarks.object_addProblem, hobject]
        · rintro other ⟨reference, hreference, -⟩
          refine ⟨reference, ?_, fun hnone => absurd hnone (GcMarks.problems_addProblem _ _ _)⟩
          rw [GcMarks.object_addProblem, hreference]
      · next hsize =>
          rw [except_pure_eq_ok] at h
          subst h
          exact ⟨⟨known, hobject, fun _ => not_not.mp hsize⟩, fun _ => id⟩

/-- Only the entry's object is new. -/
theorem markEntry_objects {snapshotId : SnapshotId} {marks marks' : GcMarks} {entry : LeafEntry}
    (h : markEntry snapshotId marks entry = .ok marks') {object : ObjectId × ReferencedObject}
    (hobject : object ∈ marks'.objects) :
    object ∈ marks.objects ∨ object.1 = entry.objectId := by
  simp only [markEntry, except_bind_eq_ok] at h
  rcases h with ⟨path, -, h⟩
  split at h
  · rw [except_pure_eq_ok] at h
    subst h
    rcases List.mem_append.mp hobject with hold | hnew
    · exact .inl hold
    · exact .inr (congrArg Prod.fst (List.mem_singleton.mp hnew))
  · split at h
    · rw [except_pure_eq_ok] at h
      subst h
      rw [GcMarks.objects_addProblem] at hobject
      exact .inl hobject
    · rw [except_pure_eq_ok] at h
      exact .inl (h ▸ hobject)

/-! What a walk stays within. -/

section Within

variable {α : Type} {graph : ManifestGraph} {visit : α → LeafEntry → CheckPoResult α}

/-- A set of chunks that is closed under children, and what the entries of its chunks
leave in the marks. -/
structure StaysWithin (graph : ManifestGraph) (visit : α → LeafEntry → CheckPoResult α)
    (reach : ManifestRef → Prop) (kept : α → Prop) : Prop where
  child : ∀ parent child, reach parent → child ∈ graph.children parent → reach child
  visit : ∀ reference entry marks marks', reach reference → entry ∈ graph.entries reference →
    visit marks entry = .ok marks' → kept marks → kept marks'

theorem StaysWithin.entries {reach : ManifestRef → Prop} {kept : α → Prop}
    (h : StaysWithin graph visit reach kept) {reference : ManifestRef} (hreach : reach reference)
    {entries : List LeafEntry} (hentries : ∀ entry ∈ entries, entry ∈ graph.entries reference)
    {marks : α} (hmarks : kept marks) : kept (visitEntries visit entries marks).1 := by
  induction entries generalizing marks with
  | nil => exact hmarks
  | cons entry rest ih =>
      rw [List.forall_mem_cons] at hentries
      rw [visitEntries]
      cases hvisit : visit marks entry with
      | error error => exact hmarks
      | ok marks' => exact ih hentries.2 (h.visit _ _ _ _ hreach hentries.1 hvisit hmarks)

/-- A walk that starts within the set stays within it. -/
theorem StaysWithin.walk {reach : ManifestRef → Prop} {kept : α → Prop}
    (h : StaysWithin graph visit reach kept) {snapshotId : SnapshotId} {turns : Nat}
    {pending : List ManifestRef} {walk walk' : ChunkWalk α} {result : CheckPoResult Unit}
    (hpending : ∀ reference ∈ pending, reach reference)
    (hchunks : ∀ reference ∈ walk.chunks, reach reference) (hmarks : kept walk.marks)
    (hwalk : walkChunks graph.load snapshotId visit turns pending walk = some (walk', result)) :
    (∀ reference ∈ walk'.chunks, reach reference) ∧ kept walk'.marks := by
  induction turns generalizing pending walk with
  | zero =>
      cases pending with
      | nil =>
          rw [walkChunks, Option.some.injEq, Prod.mk.injEq] at hwalk
          exact hwalk.1 ▸ ⟨hchunks, hmarks⟩
      | cons reference pending => cases hwalk
  | succ turns ih =>
      cases pending with
      | nil =>
          rw [walkChunks, Option.some.injEq, Prod.mk.injEq] at hwalk
          exact hwalk.1 ▸ ⟨hchunks, hmarks⟩
      | cons reference pending =>
          rw [List.forall_mem_cons] at hpending
          rw [walkChunks] at hwalk
          split at hwalk
          · exact ih hpending.2 hchunks hmarks hwalk
          · cases hload : graph.load reference with
            | error error =>
                rw [hload, Option.some.injEq, Prod.mk.injEq] at hwalk
                exact hwalk.1 ▸ ⟨hchunks, hmarks⟩
            | ok chunk =>
                have hentries : ∀ entry ∈ chunk.leafEntries, entry ∈ graph.entries reference := by
                  rw [ManifestGraph.entries_eq hload]
                  exact fun _ hentry => hentry
                have hkept := h.entries hpending.1 hentries hmarks
                have hinsert : ∀ other ∈ insert reference walk.chunks, reach other := by
                  intro other hother
                  rcases Finset.mem_insert.mp hother with rfl | hother
                  · exact hpending.1
                  · exact hchunks other hother
                simp only [hload] at hwalk
                split at hwalk
                · rw [Option.some.injEq, Prod.mk.injEq] at hwalk
                  exact hwalk.1 ▸ ⟨hinsert, hkept⟩
                · refine ih (fun other hother => ?_) hinsert hkept hwalk
                  rcases List.mem_append.mp hother with hchild | hother
                  · apply h.child reference other hpending.1
                    rw [ManifestGraph.children_eq hload]
                    exact List.mem_reverse.mp hchild
                  · exact hpending.2 other hother

end Within

/-! How long a walk takes. -/

section Turns

variable {α : Type} {graph : ManifestGraph} {visit : α → LeafEntry → CheckPoResult α}

/-- The children of the chunks that have not been passed. -/
noncomputable def openEdges (graph : ManifestGraph) (passed : Finset ManifestRef) : Nat :=
  ∑ reference ∈ (Set.toFinite {reference | reference ∉ passed}).toFinset,
    (graph.children reference).length

theorem openEdges_insert (graph : ManifestGraph) {passed : Finset ManifestRef}
    {reference : ManifestRef} (hnew : reference ∉ passed) :
    openEdges graph (insert reference passed) + (graph.children reference).length =
      openEdges graph passed := by
  have hsplit : (Set.toFinite {other | other ∉ passed}).toFinset =
      insert reference (Set.toFinite {other | other ∉ insert reference passed}).toFinset := by
    ext other
    simp only [Set.Finite.mem_toFinset, Set.mem_ofPred_eq, Finset.mem_insert, not_or]
    constructor
    · intro hother
      by_cases hself : other = reference
      · exact .inl hself
      · exact .inr ⟨hself, hother⟩
    · rintro (rfl | ⟨-, hother⟩)
      · exact hnew
      · exact hother
  rw [openEdges, openEdges, hsplit, Finset.sum_insert (by simp), Nat.add_comm]

theorem openEdges_le (graph : ManifestGraph) (passed : Finset ManifestRef) :
    openEdges graph passed ≤ openEdges graph ∅ :=
  Finset.sum_le_sum_of_subset fun _ _ => by simp

/-- A turn passes a chunk, or drops one that was passed. -/
theorem walkChunks_ne_none {snapshotId : SnapshotId} {turns : Nat} {pending : List ManifestRef}
    {walk : ChunkWalk α} (hturns : pending.length + openEdges graph walk.chunks ≤ turns) :
    walkChunks graph.load snapshotId visit turns pending walk ≠ none := by
  induction turns generalizing pending walk with
  | zero =>
      obtain rfl := List.eq_nil_of_length_eq_zero (show pending.length = 0 by omega)
      exact Option.some_ne_none _
  | succ turns ih =>
      cases pending with
      | nil => exact Option.some_ne_none _
      | cons reference pending =>
          rw [List.length_cons] at hturns
          rw [walkChunks]
          split
          · exact ih (by omega)
          · next hnew =>
              cases hload : graph.load reference with
              | error error => exact Option.some_ne_none _
              | ok chunk =>
                  dsimp only
                  split
                  · exact Option.some_ne_none _
                  · apply ih
                    have hedges := openEdges_insert graph hnew
                    rw [ManifestGraph.children_eq hload] at hedges
                    rw [List.length_append, List.length_reverse]
                    dsimp only
                    omega

end Turns

/-! The loop over the snapshots. -/

section Hash

variable {chrono : Chrono} {tables : UnicodeTables} {blake3 : Bytes → Digest32}
variable {repository : SnapshotRepository} {projectId : ProjectId} {turns : Nat}

/-- A chunk of the manifest of one of the snapshots. -/
def SnapshotReaches (chrono : Chrono) (blake3 : Bytes → Digest32) (repository : SnapshotRepository)
    (ids : List SnapshotId) (reference : ManifestRef) : Prop :=
  ∃ id ∈ ids, ∃ header, repository.loadSnapshotRootHeader chrono blake3 id = .ok header ∧
    (storedGraph blake3 repository.loadManifestChunk).Reachable header.manifest.toList reference

theorem SnapshotReaches.mono {ids ids' : List SnapshotId} {reference : ManifestRef}
    (h : SnapshotReaches chrono blake3 repository ids reference) (hsub : ids ⊆ ids') :
    SnapshotReaches chrono blake3 repository ids' reference := by
  rcases h with ⟨id, hid, header⟩
  exact ⟨id, hsub hid, header⟩

theorem SnapshotReaches.child {ids : List SnapshotId} {parent child : ManifestRef}
    (h : SnapshotReaches chrono blake3 repository ids parent)
    (hchild : child ∈ (storedGraph blake3 repository.loadManifestChunk).children parent) :
    SnapshotReaches chrono blake3 repository ids child := by
  rcases h with ⟨id, hid, header, hheader, root, hroot, hpath⟩
  exact ⟨id, hid, header, hheader, root, hroot, hpath.tail hchild⟩

/-- An object of the snapshots. -/
def SnapshotHolds (chrono : Chrono) (blake3 : Bytes → Digest32) (repository : SnapshotRepository)
    (ids : List SnapshotId) (objectId : ObjectId) : Prop :=
  ∃ reference, SnapshotReaches chrono blake3 repository ids reference ∧
    ∃ entry ∈ (storedGraph blake3 repository.loadManifestChunk).entries reference,
      entry.objectId = objectId

theorem SnapshotHolds.mono {ids ids' : List SnapshotId} {objectId : ObjectId}
    (h : SnapshotHolds chrono blake3 repository ids objectId) (hsub : ids ⊆ ids') :
    SnapshotHolds chrono blake3 repository ids' objectId := by
  rcases h with ⟨reference, hreaches, hentry⟩
  exact ⟨reference, hreaches.mono hsub, hentry⟩

/-- The marks after these snapshots: what they reach and nothing else. -/
structure MarkedExactly (chrono : Chrono) (blake3 : Bytes → Digest32)
    (repository : SnapshotRepository) (ids : List SnapshotId) (walk : ChunkWalk GcMarks) :
    Prop where
  passed : Passed (storedGraph blake3 repository.loadManifestChunk) MarksEntry [] walk
  header : ∀ id ∈ ids, ∃ header, repository.loadSnapshotRootHeader chrono blake3 id = .ok header ∧
    ∀ manifest ∈ header.manifest, manifest ∈ walk.chunks
  chunks : ∀ reference ∈ walk.chunks, SnapshotReaches chrono blake3 repository ids reference
  objects : ∀ object ∈ walk.marks.objects, SnapshotHolds chrono blake3 repository ids object.1

theorem inspectAndMarkSnapshot_marked {ids : List SnapshotId} {snapshotId : SnapshotId}
    {cache cache' : ManifestValidationCache} {walk walk' : ChunkWalk GcMarks}
    (hmarked : MarkedExactly chrono blake3 repository ids walk)
    (h : inspectAndMarkSnapshot chrono tables blake3 repository projectId turns snapshotId cache
      walk = some (cache', walk', .ok ())) :
    MarkedExactly chrono blake3 repository (ids ++ [snapshotId]) walk' := by
  rw [inspectAndMarkSnapshot] at h
  cases hheader : repository.loadSnapshotRootHeader chrono blake3 snapshotId with
  | error error =>
      rw [hheader] at h
      cases h
  | ok header =>
      simp only [hheader] at h
      split at h
      · cases h
      · split at h
        · cases h
        · rw [Option.map_eq_some_iff] at h
          rcases h with ⟨⟨walkAfter, result⟩, hwalk, heq⟩
          cases heq
          have hsub : ids ⊆ ids ++ [snapshotId] := List.subset_append_left _ _
          have hwithin : StaysWithin (storedGraph blake3 repository.loadManifestChunk)
              (markEntry snapshotId) (SnapshotReaches chrono blake3 repository (ids ++ [snapshotId]))
              fun marks => ∀ object ∈ marks.objects,
                SnapshotHolds chrono blake3 repository (ids ++ [snapshotId]) object.1 := by
            refine ⟨fun parent child hparent hchild => hparent.child hchild, ?_⟩
            intro reference entry marks marks' hreaches hentry hvisit hkept object hobject
            rcases markEntry_objects hvisit hobject with hold | hnew
            · exact hkept object hold
            · exact ⟨reference, hreaches, entry, hentry, hnew.symm⟩
          have hroots : ∀ reference ∈ header.manifest.toList,
              SnapshotReaches chrono blake3 repository (ids ++ [snapshotId]) reference :=
            fun reference hreference => ⟨snapshotId, by simp, header, hheader, reference,
              hreference, .refl⟩
          rcases hwithin.walk hroots (fun reference hreference =>
            (hmarked.chunks reference hreference).mono hsub) (fun object hobject =>
            (hmarked.objects object hobject).mono hsub) hwalk with ⟨hchunks, hobjects⟩
          rcases (hmarked.passed.mono (List.nil_subset _)).walk (markEntry_notes snapshotId)
            hwalk with ⟨hpassed, hkeeps, hpending⟩
          refine ⟨hpassed, fun id hid => ?_, hchunks, hobjects⟩
          rcases List.mem_append.mp hid with hid | hid
          · rcases hmarked.header id hid with ⟨known, hknown, hmanifest⟩
            exact ⟨known, hknown, fun manifest hin => hkeeps (hmanifest manifest hin)⟩
          · rw [List.mem_singleton.mp hid]
            exact ⟨header, hheader, fun manifest hin =>
              hpending manifest (Option.mem_toList.mpr hin)⟩

/-- The marking ends. -/
theorem markSnapshots_ne_none {ids : List SnapshotId} {cache : ManifestValidationCache}
    {walk : ChunkWalk GcMarks}
    (hturns : 1 + openEdges (storedGraph blake3 repository.loadManifestChunk) ∅ ≤ turns) :
    markSnapshots chrono tables blake3 repository projectId turns ids cache walk ≠ none := by
  induction ids generalizing cache walk with
  | nil => exact Option.some_ne_none _
  | cons snapshotId rest ih =>
      have hstep : inspectAndMarkSnapshot chrono tables blake3 repository projectId turns snapshotId
          cache walk ≠ none := by
        rw [inspectAndMarkSnapshot]
        split
        · exact Option.some_ne_none _
        · next header hheader =>
            dsimp only
            split
            · exact Option.some_ne_none _
            · split
              · exact Option.some_ne_none _
              · rw [Ne, Option.map_eq_none_iff]
                apply @walkChunks_ne_none _ (storedGraph blake3 repository.loadManifestChunk)
                have hopen := openEdges_le (storedGraph blake3 repository.loadManifestChunk)
                  walk.chunks
                have hroots : header.manifest.toList.length ≤ 1 := by
                  cases header.manifest <;> simp
                omega
      rcases Option.ne_none_iff_exists'.mp hstep with ⟨⟨cache', walk', result⟩, heq⟩
      rw [markSnapshots, heq, Ne, Option.map_eq_none_iff]
      exact ih

/-- Where no snapshot is skipped, all of them are marked. -/
theorem markSnapshots_marked {passed ids : List SnapshotId} {cache : ManifestValidationCache}
    {walk walk' : ChunkWalk GcMarks} (hmarked : MarkedExactly chrono blake3 repository passed walk)
    (h : markSnapshots chrono tables blake3 repository projectId turns ids cache walk =
      some (walk', [])) :
    MarkedExactly chrono blake3 repository (passed ++ ids) walk' := by
  induction ids generalizing passed cache walk with
  | nil =>
      rw [markSnapshots, Option.some.injEq, Prod.mk.injEq] at h
      rw [List.append_nil]
      exact h.1 ▸ hmarked
  | cons snapshotId rest ih =>
      rw [markSnapshots] at h
      cases hstep : inspectAndMarkSnapshot chrono tables blake3 repository projectId turns
          snapshotId cache walk with
      | none =>
          rw [hstep] at h
          cases h
      | some step =>
          rcases step with ⟨cache', walkAfter, result⟩
          simp only [hstep, Option.map_eq_some_iff] at h
          rcases h with ⟨⟨last, skipped⟩, hrest, heq⟩
          cases result with
          | error error => cases heq
          | ok _ =>
              cases heq
              have hall := ih (inspectAndMarkSnapshot_marked hmarked hstep) hrest
              rwa [List.append_assoc, List.singleton_append] at hall

theorem markedExactly_empty : MarkedExactly chrono blake3 repository [] ⟨∅, .empty⟩ where
  passed := ⟨by simp, by simp⟩
  header := by simp
  chunks := by simp
  objects := by simp [GcMarks.empty]

/-- A chunk is marked if and only if a snapshot reaches it. -/
theorem MarkedExactly.mem_chunks {ids : List SnapshotId} {walk : ChunkWalk GcMarks}
    (h : MarkedExactly chrono blake3 repository ids walk) {reference : ManifestRef} :
    reference ∈ walk.chunks ↔ SnapshotReaches chrono blake3 repository ids reference := by
  constructor
  · exact h.chunks reference
  · rintro ⟨id, hid, header, hheader, root, hroot, hpath⟩
    rcases h.header id hid with ⟨known, hknown, hmanifest⟩
    obtain rfl := Except.ok.inj (hheader.symm.trans hknown)
    induction hpath with
    | refl => exact hmanifest root (Option.mem_toList.mp hroot)
    | tail _ hedge ih => exact (h.passed.children _ ih _ hedge).resolve_right List.not_mem_nil

/-- An object is marked if and only if a snapshot holds it. -/
theorem MarkedExactly.object_ne_none {ids : List SnapshotId} {walk : ChunkWalk GcMarks}
    (h : MarkedExactly chrono blake3 repository ids walk) {objectId : ObjectId} :
    walk.marks.object objectId ≠ none ↔ SnapshotHolds chrono blake3 repository ids objectId := by
  constructor
  · intro hobject
    rcases Option.ne_none_iff_exists'.mp hobject with ⟨reference, hreference⟩
    rw [GcMarks.object, Option.map_eq_some_iff] at hreference
    rcases hreference with ⟨found, hfind, -⟩
    have hid : found.1 = objectId := by simpa using List.find?_some hfind
    exact hid ▸ h.objects found (List.mem_of_find?_eq_some hfind)
  · rintro ⟨reference, hreaches, entry, hentry, rfl⟩
    rcases h.passed.entries reference (h.mem_chunks.mpr hreaches) entry hentry with
      ⟨found, hfound, -⟩
    rw [hfound]
    exact Option.some_ne_none _

end Hash

end CheckPo
