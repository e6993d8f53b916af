/-
The walk over the chunks of manifests.  Manifests share chunks, and one walk over many
of them passes every chunk once.
-/
import CheckPo.ManifestGraph
import CheckPo.ExceptRules

namespace CheckPo

/-- The chunks that the walk has passed, and what it has noted of their entries. -/
structure ChunkWalk (α : Type) where
  chunks : Finset ManifestRef
  marks : α

section Walk

variable {α : Type}

/-- The entries of a leaf, up to the first error; what was noted before it stays. -/
def visitEntries (visit : α → LeafEntry → CheckPoResult α) :
    List LeafEntry → α → α × CheckPoResult Unit
  | [], marks => (marks, .ok ())
  | entry :: rest, marks =>
      match visit marks entry with
      | .error error => (marks, .error error)
      | .ok marks => visitEntries visit rest marks

/-- The loop over the pending chunks, with a bound on its turns; `none` means that the
bound was too small.  The last pending chunk is the head of the list. -/
def walkChunks (load : ManifestRef → SnapshotV2Result DecodedChunk) (snapshotId : SnapshotId)
    (visit : α → LeafEntry → CheckPoResult α) :
    Nat → List ManifestRef → ChunkWalk α → Option (ChunkWalk α × CheckPoResult Unit)
  | _, [], walk => some (walk, .ok ())
  | 0, _ :: _, _ => none
  | turns + 1, reference :: pending, walk =>
      if reference ∈ walk.chunks then walkChunks load snapshotId visit turns pending walk
      else match load reference with
        | .error error =>
            some (walk, .error (.corruption s!"{snapshotId.toHex}: {error.message}"))
        | .ok chunk =>
            let (marks, result) := visitEntries visit chunk.leafEntries walk.marks
            let walk := ⟨insert reference walk.chunks, marks⟩
            match result with
            | .error error => some (walk, .error error)
            | .ok () =>
                walkChunks load snapshotId visit turns (chunk.childRefs.reverse ++ pending) walk

/-! What a walk keeps. -/

variable {visit : α → LeafEntry → CheckPoResult α}

theorem visitEntries_keeps (kept : α → Prop)
    (hvisit : ∀ marks entry marks', visit marks entry = .ok marks' → kept marks → kept marks')
    {entries : List LeafEntry} {marks : α} (h : kept marks) :
    kept (visitEntries visit entries marks).1 := by
  induction entries generalizing marks with
  | nil => exact h
  | cons entry rest ih =>
      rw [visitEntries]
      cases hentry : visit marks entry with
      | error error => exact h
      | ok marks' => exact ih (hvisit marks entry marks' hentry h)

theorem walkChunks_keeps (kept : α → Prop)
    (hvisit : ∀ marks entry marks', visit marks entry = .ok marks' → kept marks → kept marks')
    {load : ManifestRef → SnapshotV2Result DecodedChunk} {snapshotId : SnapshotId} {turns : Nat}
    {pending : List ManifestRef} {walk walk' : ChunkWalk α} {result : CheckPoResult Unit}
    (hwalk : walkChunks load snapshotId visit turns pending walk = some (walk', result))
    (h : kept walk.marks) : kept walk'.marks := by
  induction turns generalizing pending walk with
  | zero =>
      cases pending with
      | nil =>
          rw [walkChunks, Option.some.injEq, Prod.mk.injEq] at hwalk
          exact hwalk.1 ▸ h
      | cons reference pending => exact absurd hwalk nofun
  | succ turns ih =>
      cases pending with
      | nil =>
          rw [walkChunks, Option.some.injEq, Prod.mk.injEq] at hwalk
          exact hwalk.1 ▸ h
      | cons reference pending =>
          rw [walkChunks] at hwalk
          split at hwalk
          · exact ih hwalk h
          · cases hload : load reference with
            | error error =>
                rw [hload, Option.some.injEq, Prod.mk.injEq] at hwalk
                exact hwalk.1 ▸ h
            | ok chunk =>
                have hkept : kept (visitEntries visit chunk.leafEntries walk.marks).1 :=
                  visitEntries_keeps kept hvisit h
                simp only [hload] at hwalk
                split at hwalk
                · rw [Option.some.injEq, Prod.mk.injEq] at hwalk
                  exact hwalk.1 ▸ hkept
                · exact ih hwalk hkept

/-! What a walk passes. -/

/-- Everything of a passed chunk is noted, and its children are passed or pending. -/
structure Passed (graph : ManifestGraph) (noted : α → LeafEntry → Prop)
    (pending : List ManifestRef) (walk : ChunkWalk α) : Prop where
  children : ∀ reference ∈ walk.chunks, ∀ child ∈ graph.children reference,
    child ∈ walk.chunks ∨ child ∈ pending
  entries : ∀ reference ∈ walk.chunks, ∀ entry ∈ graph.entries reference,
    noted walk.marks entry

theorem Passed.mono {graph : ManifestGraph} {noted : α → LeafEntry → Prop}
    {pending pending' : List ManifestRef} {walk : ChunkWalk α}
    (hpassed : Passed graph noted pending walk) (hsub : pending ⊆ pending') :
    Passed graph noted pending' walk where
  children reference hreference child hchild :=
    (hpassed.children reference hreference child hchild).imp_right fun hmem => hsub hmem
  entries := hpassed.entries

/-- A visit notes its entry and forgets no other one. -/
def Notes (visit : α → LeafEntry → CheckPoResult α) (noted : α → LeafEntry → Prop) : Prop :=
  ∀ marks entry marks', visit marks entry = .ok marks' →
    noted marks' entry ∧ ∀ other, noted marks other → noted marks' other

variable {graph : ManifestGraph} {noted : α → LeafEntry → Prop}

theorem Notes.entries (hnotes : Notes visit noted) {entries : List LeafEntry} {marks marks' : α}
    (h : visitEntries visit entries marks = (marks', .ok ())) :
    (∀ entry ∈ entries, noted marks' entry) ∧ ∀ other, noted marks other → noted marks' other := by
  induction entries generalizing marks with
  | nil =>
      rw [visitEntries, Prod.mk.injEq] at h
      exact ⟨by simp, fun other hother => h.1 ▸ hother⟩
  | cons entry rest ih =>
      rw [visitEntries] at h
      cases hentry : visit marks entry with
      | error error =>
          rw [hentry, Prod.mk.injEq] at h
          exact absurd h.2 nofun
      | ok middle =>
          rw [hentry] at h
          rcases hnotes marks entry middle hentry with ⟨hnoted, hkept⟩
          rcases ih h with ⟨hrest, hkeptRest⟩
          constructor
          · intro other hother
            rcases List.mem_cons.mp hother with rfl | hother
            · exact hkeptRest _ hnoted
            · exact hrest other hother
          · exact fun other hother => hkeptRest other (hkept other hother)

/-- Passing one more chunk. -/
theorem Passed.chunk {reference : ManifestRef} {pending : List ManifestRef} {walk : ChunkWalk α}
    (hpassed : Passed graph noted (reference :: pending) walk) {chunk : DecodedChunk}
    (hload : graph.load reference = .ok chunk) {marks : α}
    (hnoted : ∀ entry ∈ chunk.leafEntries, noted marks entry)
    (hkept : ∀ other, noted walk.marks other → noted marks other) :
    Passed graph noted (chunk.childRefs.reverse ++ pending)
      ⟨insert reference walk.chunks, marks⟩ where
  children parent hparent child hchild := by
    rcases Finset.mem_insert.mp hparent with rfl | hparent
    · rw [ManifestGraph.children_eq hload] at hchild
      exact Or.inr (List.mem_append_left _ (List.mem_reverse.mpr hchild))
    · rcases hpassed.children parent hparent child hchild with hmem | hmem
      · exact Or.inl (Finset.mem_insert_of_mem hmem)
      · rcases List.mem_cons.mp hmem with rfl | hmem
        · exact Or.inl (Finset.mem_insert_self _ _)
        · exact Or.inr (List.mem_append_right _ hmem)
  entries parent hparent entry hentry := by
    rcases Finset.mem_insert.mp hparent with rfl | hparent
    · rw [ManifestGraph.entries_eq hload] at hentry
      exact hnoted entry hentry
    · exact hkept entry (hpassed.entries parent hparent entry hentry)

/-- Skipping a chunk that was passed before. -/
theorem Passed.skip {reference : ManifestRef} {pending : List ManifestRef} {walk : ChunkWalk α}
    (hpassed : Passed graph noted (reference :: pending) walk)
    (hknown : reference ∈ walk.chunks) : Passed graph noted pending walk where
  children parent hparent child hchild := by
    rcases hpassed.children parent hparent child hchild with hmem | hmem
    · exact Or.inl hmem
    · rcases List.mem_cons.mp hmem with rfl | hmem
      · exact Or.inl hknown
      · exact Or.inr hmem
  entries := hpassed.entries

/-- A walk without an error passes the pending chunks and everything below them. -/
theorem Passed.walk (hnotes : Notes visit noted) {snapshotId : SnapshotId} {turns : Nat}
    {pending : List ManifestRef} {walk walk' : ChunkWalk α}
    (hpassed : Passed graph noted pending walk)
    (hwalk : walkChunks graph.load snapshotId visit turns pending walk = some (walk', .ok ())) :
    Passed graph noted [] walk' ∧ walk.chunks ⊆ walk'.chunks ∧
      ∀ reference ∈ pending, reference ∈ walk'.chunks := by
  induction turns generalizing pending walk with
  | zero =>
      cases pending with
      | nil =>
          rw [walkChunks, Option.some.injEq, Prod.mk.injEq] at hwalk
          exact hwalk.1 ▸ ⟨hpassed, Finset.Subset.refl _, by simp⟩
      | cons reference pending => exact absurd hwalk nofun
  | succ turns ih =>
      cases pending with
      | nil =>
          rw [walkChunks, Option.some.injEq, Prod.mk.injEq] at hwalk
          exact hwalk.1 ▸ ⟨hpassed, Finset.Subset.refl _, by simp⟩
      | cons reference pending =>
          rw [walkChunks] at hwalk
          split at hwalk
          · next hknown =>
              rcases ih (hpassed.skip hknown) hwalk with ⟨hafter, hsub, hpending⟩
              exact ⟨hafter, hsub, List.forall_mem_cons.mpr ⟨hsub hknown, hpending⟩⟩
          · cases hload : graph.load reference with
            | error error =>
                rw [hload, Option.some.injEq, Prod.mk.injEq] at hwalk
                exact absurd hwalk.2 nofun
            | ok chunk =>
                simp only [hload] at hwalk
                cases hentries : visitEntries visit chunk.leafEntries walk.marks with
                | mk marks result =>
                    rw [hentries] at hwalk
                    cases result with
                    | error error =>
                        simp only [Option.some.injEq, Prod.mk.injEq, reduceCtorEq,
                          and_false] at hwalk
                    | ok _ =>
                        rcases hnotes.entries hentries with ⟨hnoted, hkept⟩
                        rcases ih (hpassed.chunk hload hnoted hkept) hwalk with
                          ⟨hafter, hsub, hpending⟩
                        have hchunks := (Finset.subset_insert reference walk.chunks).trans hsub
                        refine ⟨hafter, hchunks, List.forall_mem_cons.mpr ⟨?_, ?_⟩⟩
                        · exact hsub (Finset.mem_insert_self _ _)
                        · exact fun other hother =>
                            hpending other (List.mem_append_right _ hother)

/-- What a finished walk has passed holds everything that is reachable from it. -/
theorem Passed.reachable {walk : ChunkWalk α} (hpassed : Passed graph noted [] walk)
    {roots : List ManifestRef} (hroots : ∀ root ∈ roots, root ∈ walk.chunks)
    {reference : ManifestRef} (hreachable : graph.Reachable roots reference) :
    ∀ entry ∈ graph.entries reference, noted walk.marks entry := by
  apply hpassed.entries
  apply ManifestGraph.reachable_subset hroots _ (ManifestGraph.mem_reachable.mpr hreachable)
  intro parent hparent child hchild
  exact (hpassed.children parent hparent child hchild).resolve_right List.not_mem_nil

end Walk

end CheckPo
