/-
Iteration reads a manifest back.  From a state whose pending stack starts at a
tree, the turns of `next` yield the entries of its range in order and leave the
rest of the stack as it was.
-/
import CheckPo.ManifestDistinct

namespace CheckPo

section Hash

variable {blake3 : Bytes → Digest32} {tables : UnicodeTables} {target : Nat}
variable {source : ManifestChunkSource}

/-- The bytes a source answers with, where it answers. -/
def sourceTable (source : ManifestChunkSource) (reference : ManifestRef) :
    Option Bytes :=
  (source reference).toOption

theorem sourceTable_eq_some {reference : ManifestRef} {bytes : Bytes} :
    sourceTable source reference = some bytes ↔ source reference = .ok bytes := by
  rw [sourceTable]
  cases source reference <;> simp [Except.toOption]

theorem sourceTable_loadManifestChunk (built : BuiltManifest) :
    sourceTable built.loadManifestChunk = Chunks.get built.chunks := by
  funext reference
  rw [sourceTable, BuiltManifest.loadManifestChunk]
  cases Chunks.get built.chunks reference <;> rfl

/-- What loading a chunk checks: its bytes are stored, they are hashed to its
reference, and they decode. -/
theorem loadChunk_eq_ok {reference : ManifestRef} {chunk : DecodedChunk} :
    loadChunk blake3 source reference = .ok chunk ↔
      ∃ bytes, source reference = .ok bytes ∧
        ((reference = leafRef blake3 bytes ∧
            ∃ leaf, decodeLeaf bytes = .ok leaf ∧ .leaf leaf bytes = chunk) ∨
          (reference = nodeRef blake3 bytes ∧
            ∃ node, decodeNode bytes = .ok node ∧ .node node bytes = chunk)) := by
  obtain ⟨kind, id⟩ := reference
  simp only [loadChunk, except_bind_eq_ok, liftM_codec_eq_ok, verifyManifestId]
  refine exists_congr fun bytes => and_congr_right fun _ => ?_
  cases kind with
  | root => simp [manifestId, leafRef, nodeRef]
  | node =>
      simp only [manifestId, except_guard_eq_ok, except_pure_eq_ok, leafRef, nodeRef,
        ManifestRef.mk.injEq, Except.ok.injEq, reduceCtorEq, false_and, false_or,
        true_and, ne_eq, not_not, exists_eq_left', except_bind_eq_ok,
        liftM_codec_eq_ok, and_true, exists_const]
      rw [eq_comm]
  | leaf =>
      simp only [manifestId, except_guard_eq_ok, except_pure_eq_ok, leafRef, nodeRef,
        ManifestRef.mk.injEq, Except.ok.injEq, reduceCtorEq, false_and, or_false,
        true_and, ne_eq, not_not, exists_eq_left', except_bind_eq_ok,
        liftM_codec_eq_ok, and_true, exists_const]
      rw [eq_comm]

theorem loadChunk_leaf {bytes : Bytes} {leaf : ManifestLeaf}
    (hsource : source (leafRef blake3 bytes) = .ok bytes)
    (hencode : encodeLeaf leaf = .ok bytes) :
    loadChunk blake3 source (leafRef blake3 bytes) = .ok (.leaf leaf bytes) :=
  loadChunk_eq_ok.mpr ⟨bytes, hsource,
    Or.inl ⟨rfl, leaf, decodeLeaf_encodeLeaf hencode, rfl⟩⟩

theorem loadChunk_node {bytes : Bytes} {node : ManifestNode}
    (hsource : source (nodeRef blake3 bytes) = .ok bytes)
    (hencode : encodeNode node = .ok bytes) :
    loadChunk blake3 source (nodeRef blake3 bytes) = .ok (.node node bytes) :=
  loadChunk_eq_ok.mpr ⟨bytes, hsource,
    Or.inr ⟨rfl, node, decodeNode_encodeNode hencode, rfl⟩⟩

/-- The turns that lead from one state of the iterator to another, with the
entries they yield; the number counts the turns that load a chunk. -/
inductive Runs (blake3 : Bytes → Digest32) (source : ManifestChunkSource) :
    Nat → ManifestIter → List ManifestEntry → ManifestIter → Prop
  | refl (iter : ManifestIter) : Runs blake3 source 0 iter [] iter
  | item {count : Nat} {iter next last : ManifestIter} {entry : ManifestEntry}
      {entries : List ManifestEntry} (hturn : iter.turn blake3 source =
        .item (.ok entry) next) (hfailed : iter.failed = false)
      (hrest : Runs blake3 source count next entries last) :
      Runs blake3 source count iter (entry :: entries) last
  | again {count : Nat} {iter next last : ManifestIter}
      {entries : List ManifestEntry} (hturn : iter.turn blake3 source = .again next)
      (hfailed : iter.failed = false)
      (hrest : Runs blake3 source count next entries last) :
      Runs blake3 source (count + 1) iter entries last

namespace Runs

theorem trans {count count' : Nat} {first second third : ManifestIter}
    {entries entries' : List ManifestEntry}
    (h : Runs blake3 source count first entries second)
    (h' : Runs blake3 source count' second entries' third) :
    Runs blake3 source (count + count') first (entries ++ entries') third := by
  induction h with
  | refl => simpa using h'
  | item hturn hfailed _ ih => exact .item hturn hfailed (ih h')
  | @again count _ _ _ _ hturn hfailed _ ih =>
      rw [Nat.succ_add]
      exact .again hturn hfailed (ih h')

/-- The entries of the current leaf come first. -/
theorem leaf (pending visited : List ManifestRef) (entries : List LeafEntry) :
    Runs blake3 source 0 ⟨pending, visited, entries, false⟩ entries
      ⟨pending, visited, [], false⟩ := by
  induction entries with
  | nil => exact .refl _
  | cons entry entries ih => exact .item rfl rfl ih

/-- Enough turns make `next` return: the first entry, or the end. -/
theorem next_eq {count turns : Nat} {iter last : ManifestIter}
    {entries : List ManifestEntry} (h : Runs blake3 source count iter entries last)
    (hlast : last.turn blake3 source = .done) (hfailed : last.failed = false)
    (hturns : count < turns) :
    match entries with
    | [] => ∃ after, iter.next blake3 source turns = some (none, after)
    | entry :: rest => ∃ after, ∃ left ≤ count,
        iter.next blake3 source turns = some (some (.ok entry), after) ∧
          Runs blake3 source left after rest last := by
  induction h generalizing turns with
  | refl iter =>
      obtain ⟨turns, rfl⟩ : ∃ m, turns = m + 1 := ⟨turns - 1, by omega⟩
      exact ⟨iter, by simp [ManifestIter.next, hfailed, hlast]⟩
  | @item count iter next last entry entries hturn hiter hrest ih =>
      obtain ⟨turns, rfl⟩ : ∃ m, turns = m + 1 := ⟨turns - 1, by omega⟩
      exact ⟨next, count, le_refl count,
        by simp [ManifestIter.next, hiter, hturn], hrest⟩
  | @again count iter next last entries hturn hiter hrest ih =>
      obtain ⟨turns, rfl⟩ : ∃ m, turns = m + 1 := ⟨turns - 1, by omega⟩
      have hnext : iter.next blake3 source (turns + 1) =
          next.next blake3 source turns := by
        simp [ManifestIter.next, hiter, hturn]
      have h := ih hlast hfailed (by omega : count < turns)
      rw [hnext]
      cases entries with
      | nil => exact h
      | cons entry rest =>
          obtain ⟨after, left, hle, hstep, hruns⟩ := h
          exact ⟨after, left, by omega, hstep, hruns⟩

/-- Collecting a run to the end returns its entries. -/
theorem collect_eq {count turns items : Nat} {iter last : ManifestIter}
    {entries : List ManifestEntry} (h : Runs blake3 source count iter entries last)
    (hlast : last.turn blake3 source = .done) (hfailed : last.failed = false)
    (hturns : count < turns) (hitems : entries.length < items) :
    iter.collect blake3 source turns items = some (.ok entries) := by
  induction entries generalizing count iter items with
  | nil =>
      obtain ⟨items, rfl⟩ : ∃ m, items = m + 1 := ⟨items - 1, by omega⟩
      obtain ⟨after, hnext⟩ := h.next_eq hlast hfailed hturns
      simp [ManifestIter.collect, hnext]
  | cons entry rest ih =>
      rw [List.length_cons] at hitems
      obtain ⟨items, rfl⟩ : ∃ m, items = m + 1 := ⟨items - 1, by omega⟩
      obtain ⟨after, left, hle, hnext, hruns⟩ := h.next_eq hlast hfailed hturns
      have hrest := ih hruns (by omega) (by omega : rest.length < items)
      simp [ManifestIter.collect, hnext, hrest]

end Runs

/-- What the traversal of one tree does: it yields the entries, pops the tree's
root, and has visited the tree's chunks besides those before. -/
def Traverses (blake3 : Bytes → Digest32) (source : ManifestChunkSource)
    (references : List ManifestRef) (entries : List ManifestEntry) (added : Chunks) :
    Prop :=
  ∀ pending visited, (∀ reference ∈ added.map Prod.fst, reference ∉ visited) →
    ∃ visited', Runs blake3 source added.length
        ⟨references ++ pending, visited, [], false⟩ entries
        ⟨pending, visited', [], false⟩ ∧
      ∀ reference, reference ∈ visited' ↔
        reference ∈ visited ∨ reference ∈ added.map Prod.fst

theorem Traverses.append {left right : List ManifestRef}
    {entries entries' : List ManifestEntry} {added added' : Chunks}
    (hleft : Traverses blake3 source left entries added)
    (hright : Traverses blake3 source right entries' added')
    (hdisjoint : (added.map Prod.fst).Disjoint (added'.map Prod.fst)) :
    Traverses blake3 source (left ++ right) (entries ++ entries') (added ++ added') := by
  intro pending visited hvisited
  obtain ⟨middle, hmiddle, hmiddleMem⟩ := hleft (right ++ pending) visited
    (fun reference hreference => hvisited reference (by simp [hreference]))
  obtain ⟨last, hlast, hlastMem⟩ := hright pending middle (by
    intro reference hreference hmem
    rcases (hmiddleMem reference).mp hmem with hmem | hmem
    · exact hvisited reference (by simp [hreference]) hmem
    · exact hdisjoint hmem hreference)
  refine ⟨last, ?_, ?_⟩
  · rw [List.length_append, List.append_assoc]
    exact hmiddle.trans hlast
  · intro reference
    rw [hlastMem, hmiddleMem, List.map_append, List.mem_append, or_assoc]

theorem nodup_child {built : List (ManifestRef × Chunks)}
    (hnodup : ((built.map Prod.snd).flatten.map Prod.fst).Nodup)
    {chunk : ManifestRef × Chunks} (hchunk : chunk ∈ built) :
    (chunk.2.map Prod.fst).Nodup := by
  refine hnodup.sublist (List.Sublist.map Prod.fst ?_)
  exact List.sublist_flatten_of_mem (List.mem_map_of_mem hchunk)

theorem traverses_children {levels : Nat} {ranges : List (List KeyedEntry)}
    {built : List (ManifestRef × Chunks)}
    (hbuilt : List.Forall₂ (fun child chunk =>
      Canonical blake3 target levels child chunk.1 chunk.2) ranges built)
    (hnodup : ((built.map Prod.snd).flatten.map Prod.fst).Nodup)
    (htraverses : ∀ child ∈ ranges, ∀ chunk ∈ built,
      Canonical blake3 target levels child chunk.1 chunk.2 →
      Traverses blake3 source [chunk.1] (child.map KeyedEntry.entry) chunk.2) :
    Traverses blake3 source (built.map Prod.fst)
      (ranges.flatten.map KeyedEntry.entry) (built.map Prod.snd).flatten := by
  induction hbuilt with
  | nil =>
      intro pending visited _
      exact ⟨visited, .refl _, by simp⟩
  | @cons child chunk ranges built hhead htail ih =>
      rw [List.map_cons, List.flatten_cons, List.map_append,
        List.nodup_append'] at hnodup
      obtain ⟨-, hrest, hdisjoint⟩ := hnodup
      have hfirst := htraverses child List.mem_cons_self chunk List.mem_cons_self hhead
      have hothers := ih hrest fun child hchild chunk hchunk hcanonical =>
        htraverses child (List.mem_cons_of_mem _ hchild) chunk
          (List.mem_cons_of_mem _ hchunk) hcanonical
      rw [List.map_cons, List.map_cons, List.flatten_cons, List.flatten_cons,
        List.map_append]
      exact hfirst.append hothers hdisjoint

/-- Iteration visits a tree once and yields its range. -/
theorem Canonical.traverses {levels : Nat} {range : List KeyedEntry}
    {reference : ManifestRef} {added : Chunks}
    (h : Canonical blake3 target levels range reference added)
    (hholds : Holds (sourceTable source) added)
    (hnodup : (added.map Prod.fst).Nodup) :
    Traverses blake3 source [reference] (range.map KeyedEntry.entry) added := by
  induction levels generalizing range reference added with
  | zero => exact h.elim
  | succ levels ih =>
      by_cases hleaf : RangeIsLeaf target range
      · obtain ⟨-, -, bytes, hbytes, rfl, rfl⟩ := (canonical_leaf hleaf).mp h
        have hload := loadChunk_leaf
          (sourceTable_eq_some.mp (hholds _ List.mem_cons_self)) hbytes
        intro pending visited hvisited
        have hfresh := hvisited (leafRef blake3 bytes) (by simp)
        refine ⟨leafRef blake3 bytes :: visited,
          .again ?_ rfl (.leaf pending (leafRef blake3 bytes :: visited)
            (range.map KeyedEntry.entry)), ?_⟩
        · simp [ManifestIter.turn, hfresh, hload]
        · simp [or_comm]
      · obtain ⟨-, -, -, built, hbuilt, bytes, hbytes, rfl, rfl⟩ :=
          (canonical_node hleaf).mp h
        have hload := loadChunk_node
          (sourceTable_eq_some.mp (hholds (nodeRef blake3 bytes, bytes) (by simp)))
          hbytes
        rw [List.map_append, List.nodup_append'] at hnodup
        obtain ⟨hbelow, -, hroot⟩ := hnodup
        have hchildren := traverses_children hbuilt hbelow
          (fun child _ chunk hchunk hcanonical => ih hcanonical
            (hholds.left.child hchunk) (nodup_child hbelow hchunk))
        rw [rangeChildren_flatten] at hchildren
        intro pending visited hvisited
        have hfresh := hvisited (nodeRef blake3 bytes) (by simp)
        obtain ⟨visited', hruns, hmem⟩ := hchildren pending
          (nodeRef blake3 bytes :: visited) (by
            intro item hitem hin
            rcases List.mem_cons.mp hin with rfl | hin
            · exact hroot hitem (by simp)
            · refine hvisited item ?_ hin
              rw [List.map_append]
              exact List.mem_append_left _ hitem)
        refine ⟨visited', ?_, ?_⟩
        · rw [List.length_append, List.length_singleton]
          refine .again ?_ rfl hruns
          simp only [ManifestIter.turn, List.cons_append, List.nil_append, if_neg hfresh,
            hload]
          rw [rangeManifestChildren_refs (by simp [hbuilt.length_eq])]
        · intro item
          rw [hmem]
          simp only [List.mem_cons, List.map_append, List.mem_append, List.map_cons,
            List.map_nil, List.not_mem_nil, or_false]
          tauto

/-- Reading a whole manifest: the iterator returns its entries, in the order of
their keys. -/
theorem Canonical.collect_eq {levels : Nat} {range : List KeyedEntry}
    {root : ManifestRef} {added : Chunks}
    (h : Canonical blake3 target levels range root added)
    (hholds : Holds (sourceTable source) added) (hvalid : ValidRange tables range)
    {turns items : Nat} (hturns : added.length < turns)
    (hitems : range.length < items) :
    (manifestIter (some root)).collect blake3 source turns items =
      some (.ok (range.map KeyedEntry.entry)) := by
  obtain ⟨visited, hruns, -⟩ :=
    h.traverses hholds (h.refs_nodup hholds hvalid) [] [] (by simp)
  exact hruns.collect_eq rfl rfl hturns (by simpa using hitems)

end Hash

end CheckPo
