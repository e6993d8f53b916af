/-
Canonical uniqueness and the round trip of manifests: what validation accepts
is what the writer builds from the entries it holds, and what the writer builds
is read back entry for entry.
-/
import CheckPo.ManifestSound

namespace CheckPo

/-! A manifest of two files, for instances of the general statements. -/

namespace Sample

/-- A stand-in for BLAKE3: the sum of the bytes. -/
def hash (bytes : Bytes) : Digest32 :=
  ⟨List.replicate 32 (bytes.foldl (· + ·) 0), List.length_replicate⟩

/-- The Unicode tables on ASCII text. -/
def tables : UnicodeTables where
  nfc := id
  toLowercase := fun character =>
    if 'A' ≤ character ∧ character ≤ 'Z' then (character.toNat + 32, 0) else (0, 0)
  debugEscapes := fun character => decide (character < ' ' ∨ '~' < character)

def entry (path : String) : ManifestEntry :=
  ⟨path, 3, ⟨0, 0⟩, ⟨List.replicate 32 7, List.length_replicate⟩⟩

def range : List KeyedEntry :=
  [⟨utf8 "assets/a", entry "Assets/a"⟩, ⟨utf8 "assets/b", entry "Assets/b"⟩]

def leafBytes : Bytes :=
  (encodeLeaf ⟨rangePrefix range, range.map KeyedEntry.entry⟩).toOption.getD []

def root : ManifestRef := leafRef hash leafBytes

def source : ManifestChunkSource := fun reference =>
  if reference = root then .ok leafBytes else .error (.source "missing")

theorem range_valid : ValidRange tables range where
  keyed := by decide +kernel
  ordered := (@validateOrderedKeys_eq_ok tables _).mp (by decide +kernel)

theorem range_fit : TotalsFit range := by
  unfold TotalsFit
  decide +kernel

theorem range_isLeaf : RangeIsLeaf manifestLeafTargetBytes range := by
  decide +kernel

theorem range_canonical : Canonical hash manifestLeafTargetBytes
    (maxManifestDepth + 1) range root [(root, leafBytes)] :=
  (canonical_leaf range_isLeaf).mpr
    ⟨by decide, by decide +kernel, leafBytes, by decide +kernel, rfl, rfl⟩

theorem source_holds : Holds (sourceTable source) [(root, leafBytes)] := by
  intro chunk hchunk
  rw [List.mem_singleton.mp hchunk, sourceTable_eq_some, source, if_pos rfl]

end Sample

section Hash

variable {blake3 : Bytes → Digest32} {tables : UnicodeTables}
variable {source : ManifestChunkSource}

/-- The chunks that a root leads to through the children of its nodes. -/
inductive Reachable (source : ManifestChunkSource) (root : Option ManifestRef) :
    ManifestRef → Prop
  | root {reference : ManifestRef} (hroot : root = some reference) :
      Reachable source root reference
  | child {parent reference : ManifestRef} {bytes : Bytes} {node : ManifestNode}
      (hparent : Reachable source root parent) (hkind : parent.kind = .node)
      (hbytes : source parent = .ok bytes) (hnode : decodeNode bytes = .ok node)
      (hchild : reference ∈ node.children.map ManifestChild.child) :
      Reachable source root reference

/-- The iterator returns these entries, given enough turns and items. -/
def Yields (blake3 : Bytes → Digest32) (source : ManifestChunkSource)
    (root : Option ManifestRef) (entries : List ManifestEntry) : Prop :=
  ∃ bound, ∀ turns items, bound ≤ turns → bound ≤ items →
    (manifestIter root).collect blake3 source turns items = some (.ok entries)

theorem Yields.unique {root : Option ManifestRef} {entries entries' : List ManifestEntry}
    (h : Yields blake3 source root entries) (h' : Yields blake3 source root entries') :
    entries = entries' := by
  obtain ⟨bound, hbound⟩ := h
  obtain ⟨bound', hbound'⟩ := h'
  have hleft := hbound (max bound bound') (max bound bound') (le_max_left _ _)
    (le_max_left _ _)
  have hright := hbound' (max bound bound') (max bound bound') (le_max_right _ _)
    (le_max_right _ _)
  rw [hleft] at hright
  simpa using hright

theorem yields_none : Yields blake3 source none [] := by
  refine ⟨1, fun turns items hturns hitems => ?_⟩
  obtain ⟨turns, rfl⟩ : ∃ m, turns = m + 1 := ⟨turns - 1, by omega⟩
  obtain ⟨items, rfl⟩ : ∃ m, items = m + 1 := ⟨items - 1, by omega⟩
  rfl

theorem Canonical.yields {target levels : Nat} {range : List KeyedEntry}
    {root : ManifestRef} {added : Chunks}
    (h : Canonical blake3 target levels range root added)
    (hholds : Holds (sourceTable source) added) (hvalid : ValidRange tables range) :
    Yields blake3 source (some root) (range.map KeyedEntry.entry) := by
  refine ⟨max added.length range.length + 1, fun turns items hturns hitems => ?_⟩
  exact h.collect_eq hholds hvalid (by omega) (by omega)

/-- A tree's chunks are reachable when its root is. -/
theorem Canonical.reachable {target levels : Nat} {range : List KeyedEntry}
    {reference : ManifestRef} {added : Chunks} {root : Option ManifestRef}
    (h : Canonical blake3 target levels range reference added)
    (hholds : Holds (sourceTable source) added)
    (hreachable : Reachable source root reference) :
    ∀ item ∈ added.map Prod.fst, Reachable source root item := by
  induction levels generalizing range reference added with
  | zero => exact h.elim
  | succ levels ih =>
      by_cases hleaf : RangeIsLeaf target range
      · obtain ⟨-, -, bytes, -, rfl, rfl⟩ := (canonical_leaf hleaf).mp h
        intro item hitem
        rw [List.map_singleton, List.mem_singleton] at hitem
        exact hitem ▸ hreachable
      · obtain ⟨-, -, -, built, hbuilt, bytes, hbytes, rfl, rfl⟩ :=
          (canonical_node hleaf).mp h
        have hsource := sourceTable_eq_some.mp
          (hholds (nodeRef blake3 bytes, bytes) (by simp))
        intro item hitem
        rw [List.map_append, List.mem_append] at hitem
        rcases hitem with hitem | hitem
        · obtain ⟨pair, hpair, rfl⟩ := List.mem_map.mp hitem
          obtain ⟨chunks, hchunks, hpair⟩ := List.mem_flatten.mp hpair
          obtain ⟨chunk, hchunk, rfl⟩ := List.mem_map.mp hchunks
          obtain ⟨child, -, hcanonical⟩ := forall₂_mem_right hbuilt hchunk
          refine ih hcanonical (hholds.left.child hchunk) ?_ _ (List.mem_map_of_mem hpair)
          refine .child hreachable rfl hsource (decodeNode_encodeNode hbytes) ?_
          rw [rangeManifestChildren_refs (by simp [hbuilt.length_eq])]
          exact List.mem_map_of_mem hchunk
        · rw [List.map_singleton, List.mem_singleton] at hitem
          exact hitem ▸ hreachable

/-- The chunks a node of the tree lists are in the tree. -/
theorem Canonical.children_mem {target levels : Nat} {range : List KeyedEntry}
    {reference : ManifestRef} {added : Chunks} {bytes : Bytes} {node : ManifestNode}
    (h : Canonical blake3 target levels range reference added)
    (hholds : Holds (sourceTable source) added)
    (hkind : reference.kind = .node) (hbytes : source reference = .ok bytes)
    (hnode : decodeNode bytes = .ok node) :
    node.children.map ManifestChild.child ⊆ added.map Prod.fst := by
  cases levels with
  | zero => exact h.elim
  | succ levels =>
      by_cases hleaf : RangeIsLeaf target range
      · obtain ⟨-, -, stored, -, rfl, rfl⟩ := (canonical_leaf hleaf).mp h
        cases hkind
      · obtain ⟨-, -, -, built, hbuilt, stored, hstored, rfl, rfl⟩ :=
          (canonical_node hleaf).mp h
        have hsource := sourceTable_eq_some.mp
          (hholds (nodeRef blake3 stored, stored) (by simp))
        rw [hbytes, Except.ok.injEq] at hsource
        subst hsource
        rw [decodeNode_encodeNode hstored, Except.ok.injEq] at hnode
        subst hnode
        rw [rangeManifestChildren_refs (by simp [hbuilt.length_eq])]
        intro item hitem
        obtain ⟨chunk, hchunk, rfl⟩ := List.mem_map.mp hitem
        obtain ⟨child, -, hcanonical⟩ := forall₂_mem_right hbuilt hchunk
        obtain ⟨pair, hpair, href⟩ := List.mem_map.mp hcanonical.root_mem
        rw [List.map_append, List.mem_append]
        refine Or.inl (List.mem_map.mpr ⟨pair, ?_, href⟩)
        exact List.mem_flatten.mpr ⟨chunk.2, List.mem_map_of_mem hchunk, hpair⟩

/-- The chunks of a tree are exactly the reachable ones. -/
theorem Canonical.reachable_iff {target levels : Nat} {range : List KeyedEntry}
    {root : ManifestRef} {added : Chunks}
    (h : Canonical blake3 target levels range root added)
    (hholds : Holds (sourceTable source) added) {reference : ManifestRef} :
    Reachable source (some root) reference ↔ reference ∈ added.map Prod.fst := by
  constructor
  · intro hreachable
    induction hreachable with
    | root hroot =>
        rw [← Option.some.inj hroot]
        exact h.root_mem
    | child hparent hkind hbytes hnode hchild ih =>
        obtain ⟨chunk, hchunk, rfl⟩ := List.mem_map.mp ih
        obtain ⟨part, -, below, hbelow, -, hsub, -⟩ :=
          forall₂_mem_left h.chunks_ranges hchunk
        have hmem := hbelow.children_mem (fun item hitem => hholds item (hsub hitem))
          hkind hbytes hnode hchild
        obtain ⟨pair, hpair, hfst⟩ := List.mem_map.mp hmem
        exact hfst ▸ List.mem_map_of_mem (hsub hpair)
  · exact h.reachable hholds (.root rfl) reference

theorem Canonical.mem_added_iff {target levels : Nat} {range : List KeyedEntry}
    {root : ManifestRef} {added : Chunks}
    (h : Canonical blake3 target levels range root added)
    (hholds : Holds (sourceTable source) added) {reference : ManifestRef} {bytes : Bytes} :
    (reference, bytes) ∈ added ↔
      Reachable source (some root) reference ∧ source reference = .ok bytes := by
  rw [h.reachable_iff hholds]
  constructor
  · exact fun hmem => ⟨List.mem_map_of_mem hmem, sourceTable_eq_some.mp (hholds _ hmem)⟩
  · rintro ⟨hmem, hbytes⟩
    obtain ⟨pair, hpair, rfl⟩ := List.mem_map.mp hmem
    have hsource := sourceTable_eq_some.mp (hholds pair hpair)
    rw [hbytes, Except.ok.injEq] at hsource
    rwa [hsource]

/-! Accepted roots. -/

/-- What an accepted root is, whatever good cache it was validated with. -/
theorem validateManifestCached_sound {cache : ManifestValidationCache}
    {known : List ManifestRef} (hcache : CacheInv blake3 tables source known cache)
    (root : Option ManifestRef) (summary : ManifestSummary) :
    CacheInv blake3 tables source known
        (validateManifestCached blake3 tables source root summary cache).2 ∧
      ((validateManifestCached blake3 tables source root summary cache).1 = .ok () →
        match root with
        | none => summary = .zero
        | some root => ∃ info range added,
            Verified blake3 tables source (maxManifestDepth + 1) root info range added ∧
              info.summary = summary ∧
              CacheInv blake3 tables source (added.map Prod.fst ++ known)
                (validateManifestCached blake3 tables source (some root) summary
                  cache).2) := by
  cases root with
  | none =>
      by_cases hzero : summary = .zero
      · simp [validateManifestCached, hzero, hcache]
      · simp [validateManifestCached, hzero, hcache]
  | some root =>
      have hsound := @validateSubtree_sound blake3 tables source (maxManifestDepth + 1)
        root known
      rcases hrun : validateSubtree blake3 tables source (maxManifestDepth + 1) root
          ⟨[], cache⟩ with ⟨error | info, after⟩
      · simp only [validateManifestCached, hrun]
        exact ⟨hsound.run_error hcache hrun, fun h => by cases h⟩
      · obtain ⟨range, added, hverified, hafter⟩ := hsound.run_ok hcache hrun
        by_cases hsummary : info.summary = summary
        · simp only [validateManifestCached, hrun, hsummary, ne_eq, not_true_eq_false,
            if_false]
          exact ⟨hafter.mono (List.subset_append_right _ _),
            fun _ => ⟨info, range, added, hverified, hsummary, hafter⟩⟩
        · simp only [validateManifestCached, hrun, hsummary, ne_eq, not_false_eq_true,
            if_true]
          exact ⟨hafter.mono (List.subset_append_right _ _), fun h => by cases h⟩

theorem ValidRange.entries_nodup {range : List KeyedEntry}
    (h : ValidRange tables range) : (range.map KeyedEntry.entry).Nodup := by
  refine List.Nodup.map_on ?_ h.ordered.nodup
  intro left hleft right hright hentry
  have hkey := h.keyed left hleft
  rw [hentry, h.keyed right hright, Except.ok.injEq] at hkey
  exact hkey.symm

/-- A verified tree is what the writer stores for its entries. -/
theorem Verified.rebuilt {levels : Nat} {root : ManifestRef} {info : ValidationInfo}
    {range : List KeyedEntry} {added : Chunks}
    (h : Verified blake3 tables source levels root info range added)
    (hlevels : levels ≤ maxManifestDepth + 1) {entries : List ManifestEntry}
    (hperm : entries.Perm (range.map KeyedEntry.entry)) :
    ∃ built, buildManifest blake3 tables entries = .ok built ∧
      ManifestOf blake3 manifestLeafTargetBytes range root added built :=
  buildManifest_of_canonical hperm.symm h.valid h.fit (h.canonical.mono hlevels) h.holds

/-- An accepted root is empty or a verified tree. -/
theorem validateManifest_eq_ok {root : Option ManifestRef} {summary : ManifestSummary}
    (h : validateManifest blake3 tables source root summary = .ok ()) :
    (root = none ∧ summary = .zero) ∨
      ∃ reference range added, root = some reference ∧ summary = totals range ∧
        Verified blake3 tables source (maxManifestDepth + 1) reference
          (rangeInfo (maxManifestDepth + 1) range) range added := by
  have hsound := (validateManifestCached_sound
    (@cacheInv_empty blake3 tables source) root summary).2 h
  cases root with
  | none => exact Or.inl ⟨rfl, hsound⟩
  | some reference =>
      obtain ⟨info, range, added, hverified, hsummary, -⟩ := hsound
      have hinfo := hverified.info_eq
      subst hinfo
      exact Or.inr ⟨reference, range, added, rfl, hsummary.symm, hverified⟩

theorem not_reachable_none {reference : ManifestRef} :
    ¬ Reachable source none reference := by
  intro h
  induction h with
  | root hroot => cases hroot
  | child _ _ _ _ _ ih => exact ih

/-- The entries of an accepted root, and how the writer stores them. -/
theorem acceptedManifest_built {root : Option ManifestRef} {summary : ManifestSummary}
    (h : validateManifest blake3 tables source root summary = .ok ()) :
    ∃ entries, Yields blake3 source root entries ∧ entries.Nodup ∧
      ∃ built, (∀ reordered : List ManifestEntry, reordered.Perm entries →
          buildManifest blake3 tables reordered = .ok built) ∧
        built.root = root ∧ built.summary = summary ∧ Chunks.NodupKeys built.chunks ∧
        ∀ reference bytes, (reference, bytes) ∈ built.chunks ↔
          Reachable source root reference ∧ source reference = .ok bytes := by
  rcases validateManifest_eq_ok h with ⟨rfl, rfl⟩ | ⟨reference, range, added, rfl, rfl,
    hverified⟩
  · refine ⟨[], yields_none, List.nodup_nil, ⟨none, .zero, []⟩, ?_, rfl, rfl,
      List.nodup_nil, ?_⟩
    · intro reordered hperm
      rw [List.perm_nil.mp hperm]
      exact buildManifest_empty
    · intro reference bytes
      simp [not_reachable_none]
  · obtain ⟨built, hbuilt, hmanifest⟩ :=
      hverified.rebuilt (le_refl _) (List.Perm.refl _)
    refine ⟨range.map KeyedEntry.entry,
      hverified.canonical.yields hverified.holds hverified.valid,
      hverified.valid.entries_nodup, built,
      fun reordered hperm => buildManifest_perm hperm hbuilt,
      hmanifest.root_eq, hmanifest.summary_eq, hmanifest.nodup, ?_⟩
    intro item bytes
    rw [hmanifest.mem, hverified.canonical.mem_added_iff hverified.holds]

theorem totals_of_perm {range : List KeyedEntry} {entries : List ManifestEntry}
    (hfit : TotalsFit range) (hperm : (range.map KeyedEntry.entry).Perm entries) :
    (totals range).entryCount.toNat = entries.length ∧
      (totals range).logicalSizeBytes.toNat =
        (entries.map fun entry => entry.sizeBytes.toNat).sum ∧
      (totals range).totalExactPathBytes.toNat =
        (entries.map fun entry => (utf8 entry.exactPath).length).sum := by
  obtain ⟨hcount, hsize, hpath⟩ := totals_toNat hfit
  refine ⟨?_, ?_, ?_⟩
  · rw [hcount, ← hperm.length_eq, List.length_map]
  · rw [hsize, ← (hperm.map _).sum_eq, List.map_map]
    rfl
  · rw [hpath, ← (hperm.map _).sum_eq, List.map_map]
    rfl

theorem ValidRange.mapM_key {range : List KeyedEntry} (h : ValidRange tables range) :
    (range.map KeyedEntry.entry).mapM (fun entry =>
      portablePathKeyV1 tables entry.exactPath) = .ok (range.map KeyedEntry.key) := by
  rw [mapM_eq_ok_iff, List.forall₂_map_left_iff, List.forall₂_map_right_iff,
    List.forall₂_same]
  exact fun keyed hkeyed => (keyedEntry_eq_ok.mp (h.keyed keyed hkeyed)).1

/-- What the writer builds is read back: each entry once, in the order of the
portable keys; the order of the input does not matter; the summary counts it. -/
theorem builtManifest_read {entries : List ManifestEntry} {built : BuiltManifest}
    (h : buildManifest blake3 tables entries = .ok built) :
    (∃ read keys, Yields blake3 built.loadManifestChunk built.root read ∧
        read.Perm entries ∧
        read.mapM (fun entry => portablePathKeyV1 tables entry.exactPath) = .ok keys ∧
        keys.Pairwise (· < ·)) ∧
      (∀ reordered : List ManifestEntry, reordered.Perm entries →
        buildManifest blake3 tables reordered = .ok built) ∧
      built.summary.entryCount.toNat = entries.length ∧
      built.summary.logicalSizeBytes.toNat =
        (entries.map fun entry => entry.sizeBytes.toNat).sum ∧
      built.summary.totalExactPathBytes.toNat =
        (entries.map fun entry => (utf8 entry.exactPath).length).sum := by
  have hreordered : ∀ reordered : List ManifestEntry, reordered.Perm entries →
      buildManifest blake3 tables reordered = .ok built :=
    fun reordered hperm => buildManifest_perm hperm h
  by_cases hne : entries = []
  · subst hne
    obtain rfl : ⟨none, .zero, []⟩ = built := Except.ok.inj h
    exact ⟨⟨[], [], yields_none, .refl _, rfl, .nil⟩, hreordered, rfl, rfl, rfl⟩
  · obtain ⟨range, root, added, hperm, hvalid, hfit, hmanifest⟩ :=
      buildManifest_eq_ok hne h
    have hholds : Holds (sourceTable built.loadManifestChunk) added := by
      rw [sourceTable_loadManifestChunk]
      exact fun chunk hchunk =>
        hmanifest.nodup.holds chunk ((hmanifest.mem chunk).mpr hchunk)
    refine ⟨⟨range.map KeyedEntry.entry, range.map KeyedEntry.key, ?_, hperm,
      hvalid.mapM_key, ?_⟩, hreordered, ?_⟩
    · rw [hmanifest.root_eq]
      exact hmanifest.canonical.yields hholds hvalid
    · rw [List.pairwise_map]
      exact hvalid.ordered.pairwise
    · rw [hmanifest.summary_eq]
      exact totals_of_perm hfit hperm

theorem builtManifest_read_sample :
    ∃ built, buildManifest Sample.hash Sample.tables
        [Sample.entry "Assets/b", Sample.entry "Assets/a"] = .ok built ∧
      ∃ read, Yields Sample.hash built.loadManifestChunk built.root read ∧
        read.Perm [Sample.entry "Assets/b", Sample.entry "Assets/a"] := by
  obtain ⟨built, hbuild, -⟩ := buildManifest_of_canonical
    (show (Sample.range.map KeyedEntry.entry).Perm
      [Sample.entry "Assets/b", Sample.entry "Assets/a"] from .swap _ _ _)
    Sample.range_valid Sample.range_fit Sample.range_canonical Sample.source_holds
  obtain ⟨⟨read, keys, hyields, hperm, -⟩, -⟩ := builtManifest_read hbuild
  exact ⟨built, hbuild, read, hyields, hperm⟩

end Hash

end CheckPo
