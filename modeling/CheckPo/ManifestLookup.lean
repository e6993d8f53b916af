/-
Lookup in a validated manifest finds what iteration yields: the descent along the prefixes
and the edges reaches the leaf of a key, and the search there finds its entry.
-/
import CheckPo.BinarySearch
import CheckPo.ManifestReading

namespace CheckPo

section Lookup

variable (blake3 : Bytes → Digest32) (tables : UnicodeTables) (source : ManifestChunkSource)

/-- The search of a leaf, which computes the keys of the entries that it meets. -/
def lookupLeaf (key : Bytes) (leaf : ManifestLeaf) : SnapshotV2Result (Option ManifestEntry) :=
  binarySearchBy (fun entry => do
    return ordering (← portablePathKeyV1 tables entry.exactPath) key) leaf.entries

/-- `binary_search_by_key` on the children of a node. -/
def lookupChild (edge : UInt8) (node : ManifestNode) : SnapshotV2Result (Option ManifestChild) :=
  binarySearchBy (fun child => .ok (ordering child.edge edge)) node.children

/-- The loop of `lookup_manifest_entry`. -/
def lookupBelow (key : Bytes) : Nat → ManifestRef → SnapshotV2Result (Option ManifestEntry)
  | 0, _ => .error (.invalid s!"manifest exceeds maximum depth {maxManifestDepth}")
  | levels + 1, reference => do
      match ← loadChunk blake3 source reference with
      | .leaf leaf _ => lookupLeaf tables key leaf
      | .node node _ =>
          if ¬ node.portablePrefix <+: key then return none
          else match ← lookupChild (edgeAt key node.portablePrefix.length) node with
            | none => return none
            | some child => lookupBelow key levels child.child

def lookupManifestEntry (root : Option ManifestRef) (exactPath : String) :
    SnapshotV2Result (Option ManifestEntry) := do
  let key ← portablePathKeyV1 tables exactPath
  match root with
  | none => return none
  | some reference => lookupBelow blake3 tables source key (maxManifestDepth + 1) reference

end Lookup

/-! What a range holds for a key. -/

def entryOfKey (range : List KeyedEntry) (key : Bytes) : Option ManifestEntry :=
  (range.find? fun keyed => keyed.key == key).map KeyedEntry.entry

theorem entryOfKey_eq_some_iff {range : List KeyedEntry} (hordered : KeysOrdered range)
    {key : Bytes} {entry : ManifestEntry} :
    entryOfKey range key = some entry ↔ (⟨key, entry⟩ : KeyedEntry) ∈ range := by
  rw [entryOfKey, Option.map_eq_some_iff]
  constructor
  · rintro ⟨keyed, hfind, rfl⟩
    have hkey : keyed.key = key := by simpa using List.find?_some hfind
    exact hkey ▸ List.mem_of_find?_eq_some hfind
  · intro hmem
    rcases hfind : range.find? (fun keyed => keyed.key == key) with _ | keyed
    · rw [List.find?_eq_none] at hfind
      exact absurd (beq_self_eq_true key) (hfind _ hmem)
    · have hkey : keyed.key = key := by simpa using List.find?_some hfind
      have hsame := List.inj_on_of_nodup_map hordered.nodup_keys
        (List.mem_of_find?_eq_some hfind) hmem hkey
      exact ⟨keyed, hfind, by rw [hsame]⟩

/-- A run that holds every entry of the key stands for its range. -/
theorem entryOfKey_within {range child : List KeyedEntry} (hordered : KeysOrdered range)
    (hwithin : child <:+: range) {key : Bytes}
    (hall : ∀ keyed ∈ range, keyed.key = key → keyed ∈ child) :
    entryOfKey child key = entryOfKey range key := by
  have hchild : KeysOrdered child := List.IsChain.infix hordered hwithin
  ext entry
  rw [entryOfKey_eq_some_iff hordered, entryOfKey_eq_some_iff hchild]
  exact ⟨fun hmem => hwithin.subset hmem, fun hmem => hall _ hmem rfl⟩

theorem entryOfKey_eq_none {range : List KeyedEntry} {key : Bytes}
    (h : ∀ keyed ∈ range, keyed.key ≠ key) : entryOfKey range key = none := by
  rw [entryOfKey, Option.map_eq_none_iff, List.find?_eq_none]
  intro keyed hkeyed
  rw [beq_iff_eq]
  exact h keyed hkeyed

/-! Leaves. -/

section Proofs

variable {blake3 : Bytes → Digest32} {tables : UnicodeTables} {source : ManifestChunkSource}
  {target : Nat} {range : List KeyedEntry} {key : Bytes}

/-- The key of an entry, where it has one. -/
def keyOf (tables : UnicodeTables) (entry : ManifestEntry) : Bytes :=
  (portablePathKeyV1 tables entry.exactPath).toOption.getD []

theorem keyOf_entry (hvalid : ValidRange tables range) {keyed : KeyedEntry}
    (hkeyed : keyed ∈ range) :
    portablePathKeyV1 tables keyed.entry.exactPath = .ok keyed.key ∧
      keyOf tables keyed.entry = keyed.key := by
  have hkey := (keyedEntry_eq_ok.mp (hvalid.keyed keyed hkeyed)).1
  rw [keyOf, hkey]
  exact ⟨rfl, rfl⟩

theorem lookupLeaf_eq (hvalid : ValidRange tables range) (portablePrefix : Bytes) :
    lookupLeaf tables key ⟨portablePrefix, range.map KeyedEntry.entry⟩ =
      .ok (entryOfKey range key) := by
  have hcompare : ∀ entry ∈ range.map KeyedEntry.entry,
      (do return ordering (← portablePathKeyV1 tables entry.exactPath) key) =
        (.ok (ordering (keyOf tables entry) key) : SnapshotV2Result Ordering) := by
    intro entry hentry
    rcases List.mem_map.mp hentry with ⟨keyed, hkeyed, rfl⟩
    rcases keyOf_entry hvalid hkeyed with ⟨hkey, hkeyOf⟩
    rw [hkey, hkeyOf]
    rfl
  have hincreasing : (range.map KeyedEntry.entry).Pairwise fun left right =>
      keyOf tables left < keyOf tables right := by
    rw [List.pairwise_map]
    apply hvalid.ordered.pairwise.imp_of_mem
    intro left right hleft hright hlt
    rwa [(keyOf_entry hvalid hleft).2, (keyOf_entry hvalid hright).2]
  have hsearch := binarySearchBy_eq hcompare (orderedBy_of_increasing hincreasing key)
  rw [lookupLeaf, hsearch, List.find?_map, entryOfKey]
  congr 2
  apply List.find?_congr
  intro keyed hkeyed
  rw [Function.comp_apply, (keyOf_entry hvalid hkeyed).2, Bool.eq_iff_iff, beq_iff_eq,
    beq_iff_eq]
  exact ordering_eq_iff

/-! Nodes. -/

theorem rangeManifestChildren_zip (range : List KeyedEntry) (built : List (ManifestRef × Chunks)) :
    rangeManifestChildren range (built.map Prod.fst) =
      ((rangeChildren range).zip built).map fun pair =>
        ⟨rangeEdge (rangePrefixLen range) pair.1, pair.2.1, totals pair.1⟩ := by
  rw [rangeManifestChildren, List.zipWith_map_right, List.zip, List.map_zipWith]

/-- An entry lies in the run of its edge. -/
theorem mem_run_of_edge (hordered : KeysOrdered range) {child : List KeyedEntry}
    (hchild : child ∈ rangeChildren range) {keyed : KeyedEntry} (hkeyed : keyed ∈ range)
    (hedge : edgeAt keyed.key (rangePrefixLen range) = rangeEdge (rangePrefixLen range) child) :
    keyed ∈ child := by
  have hinjective : ∀ left ∈ rangeChildren range, ∀ right ∈ rangeChildren range,
      rangeEdge (rangePrefixLen range) left = rangeEdge (rangePrefixLen range) right →
        left = right := by
    have hincreasing := (List.isChain_map (rangeEdge (rangePrefixLen range))).mpr
      (rangeChildren_edges_increasing hordered)
    have hnodup := (hincreasing.pairwise.imp fun hlt => hlt.ne : List.Nodup _)
    intro left hleft right hright heq
    exact List.inj_on_of_nodup_map hnodup hleft hright heq
  rw [← rangeChildren_flatten range] at hkeyed
  rcases List.mem_flatten.mp hkeyed with ⟨run, hrun, hmem⟩
  have huniform := splitChildren_uniformEdge hrun keyed hmem
  rw [hinjective child hchild run hrun (hedge.symm.trans huniform)]
  exact hmem

/-- The search of a node's children is a search by edge. -/
theorem lookupChild_eq (hordered : KeysOrdered range) {references : List ManifestRef}
    (hlength : references.length = (rangeChildren range).length) (edge : UInt8)
    (portablePrefix : Bytes) :
    lookupChild edge ⟨portablePrefix, rangeManifestChildren range references⟩ =
      .ok ((rangeManifestChildren range references).find? fun child => child.edge == edge) := by
  have hchain := edgesIncreasing_iff.mp (edgesIncreasing_rangeManifestChildren hordered hlength)
  have htrans : IsTrans ManifestChild fun left right => left.edge < right.edge :=
    ⟨fun _ _ _ hleft hright => hleft.trans hright⟩
  have hsearch : lookupChild edge ⟨portablePrefix, rangeManifestChildren range references⟩ =
      .ok ((rangeManifestChildren range references).find? fun child =>
        ordering child.edge edge == .eq) :=
    binarySearchBy_eq (fun _ _ => rfl) (orderedBy_of_increasing hchain.pairwise edge)
  rw [hsearch]
  congr 2
  funext child
  rw [Bool.eq_iff_iff, beq_iff_eq, beq_iff_eq]
  exact ordering_eq_iff

/-- The child that a node has for the edge of a key, and what stands below it. -/
theorem exists_child {built : List (ManifestRef × Chunks)} {child : ManifestChild}
    {R : List KeyedEntry → ManifestRef × Chunks → Prop}
    (hbuilt : List.Forall₂ R (rangeChildren range) built)
    (hchild : child ∈ rangeManifestChildren range (built.map Prod.fst)) :
    ∃ run ∈ rangeChildren range, ∃ chunk ∈ built, R run chunk ∧ child.child = chunk.1 ∧
      child.edge = rangeEdge (rangePrefixLen range) run := by
  rw [rangeManifestChildren_zip] at hchild
  rcases List.mem_map.mp hchild with ⟨⟨run, chunk⟩, hpair, rfl⟩
  rcases List.of_mem_zip hpair with ⟨hrun, hchunk⟩
  exact ⟨run, hrun, chunk, hchunk, (List.forall₂_iff_zip.mp hbuilt).2 hpair, rfl, rfl⟩

theorem exists_edge {built : List (ManifestRef × Chunks)}
    (hlength : (rangeChildren range).length = built.length) {run : List KeyedEntry}
    (hrun : run ∈ rangeChildren range) :
    ∃ child ∈ rangeManifestChildren range (built.map Prod.fst),
      child.edge = rangeEdge (rangePrefixLen range) run := by
  rw [← List.map_fst_zip hlength.le] at hrun
  rcases List.mem_map.mp hrun with ⟨pair, hpair, rfl⟩
  rw [rangeManifestChildren_zip]
  exact ⟨_, List.mem_map_of_mem hpair, rfl⟩

theorem Canonical.lookupBelow_eq {levels more : Nat} {reference : ManifestRef} {added : Chunks}
    (h : Canonical blake3 target levels range reference added)
    (hholds : Holds (sourceTable source) added) (hvalid : ValidRange tables range)
    (hle : levels ≤ more) :
    lookupBelow blake3 tables source key more reference = .ok (entryOfKey range key) := by
  induction levels generalizing range reference added more with
  | zero => exact h.elim
  | succ levels ih =>
      rcases more with _ | more
      · exact absurd hle (Nat.not_succ_le_zero levels)
      by_cases hleaf : RangeIsLeaf target range
      · rcases (canonical_leaf hleaf).mp h with ⟨-, -, bytes, hbytes, rfl, rfl⟩
        have hload := loadChunk_leaf
          (sourceTable_eq_some.mp (hholds _ List.mem_cons_self)) hbytes
        rw [lookupBelow, hload]
        exact lookupLeaf_eq hvalid _
      · rcases (canonical_node hleaf).mp h with ⟨-, -, -, built, hbuilt, bytes, hbytes, rfl, rfl⟩
        have hload := loadChunk_node
          (sourceTable_eq_some.mp (hholds (nodeRef blake3 bytes, bytes) (by simp))) hbytes
        have hlength := hbuilt.length_eq
        have hreferences : (built.map Prod.fst).length = (rangeChildren range).length := by
          rw [List.length_map, hlength]
        have hsearch := lookupChild_eq hvalid.ordered hreferences
          (edgeAt key (rangePrefix range).length) (rangePrefix range)
        -- every entry of the range begins with the prefix of the node
        have hcommon : ∀ keyed ∈ range, rangePrefix range <+: keyed.key :=
          fun keyed hkeyed => rangePrefix_common hvalid.ordered.pairwise hkeyed
        rw [lookupBelow, hload, except_bind_ok]
        by_cases hstarts : rangePrefix range <+: key
        · simp only [not_true_eq_false, if_false, hstarts, hsearch, except_bind_ok]
          rcases hfind : (rangeManifestChildren range (built.map Prod.fst)).find? (fun child =>
              child.edge == edgeAt key (rangePrefix range).length) with _ | child
          · simp only [hfind]
            rw [entryOfKey_eq_none]
            · rfl
            rintro keyed hkeyed rfl
            rw [← rangeChildren_flatten range] at hkeyed
            rcases List.mem_flatten.mp hkeyed with ⟨run, hrun, hmem⟩
            rcases exists_edge hlength hrun with ⟨child, hchild, hedge⟩
            rw [List.find?_eq_none] at hfind
            apply hfind child hchild
            rw [hedge, length_rangePrefix, splitChildren_uniformEdge hrun keyed hmem,
              beq_self_eq_true]
          · have hedge := List.find?_some hfind
            rcases exists_child hbuilt (List.mem_of_find?_eq_some hfind) with
              ⟨run, hrun, chunk, hchunk, hcanonical, hreference, hrunEdge⟩
            rw [hrunEdge, length_rangePrefix, beq_iff_eq] at hedge
            have hwithin := rangeChildren_within hrun
            have hbelow := ih hcanonical (hholds.left.child hchunk) (hvalid.of_part hwithin)
              (Nat.le_of_succ_le_succ hle)
            simp only [hfind, hreference, hbelow]
            rw [entryOfKey_within hvalid.ordered hwithin]
            rintro keyed hkeyed rfl
            exact mem_run_of_edge hvalid.ordered hrun hkeyed hedge.symm
        · simp only [hstarts, not_false_eq_true, if_true]
          rw [entryOfKey_eq_none]
          · rfl
          · rintro keyed hkeyed rfl
            exact hstarts (hcommon keyed hkeyed)

/-! Lookup and iteration. -/

/-- The entry whose path has the key. -/
def entryAt (tables : UnicodeTables) (entries : List ManifestEntry) (key : Bytes) :
    Option ManifestEntry :=
  entries.find? fun entry => decide (portablePathKeyV1 tables entry.exactPath = .ok key)

theorem entryAt_range (hvalid : ValidRange tables range) (key : Bytes) :
    entryAt tables (range.map KeyedEntry.entry) key = entryOfKey range key := by
  rw [entryAt, List.find?_map, entryOfKey]
  congr 1
  apply List.find?_congr
  intro keyed hkeyed
  rw [Function.comp_apply, (keyOf_entry hvalid hkeyed).1, Bool.eq_iff_iff, decide_eq_true_iff,
    Except.ok.injEq, beq_iff_eq]

/-- Of an accepted manifest a lookup returns the one entry of the iteration that has the key of
the path, or nothing when there is none; it fails only for a path that has no key. -/
theorem lookupManifestEntry_eq_iteration (source : ManifestChunkSource)
    (root : Option ManifestRef) (summary : ManifestSummary)
    (haccepted : validateManifest blake3 tables source root summary = .ok ()) :
    ∃ entries, Yields blake3 source root entries ∧
      (entries.Pairwise fun left right => ∀ key,
        portablePathKeyV1 tables left.exactPath = .ok key →
          portablePathKeyV1 tables right.exactPath ≠ .ok key) ∧
      ∀ exactPath, lookupManifestEntry blake3 tables source root exactPath =
        (portablePathKeyV1 tables exactPath).map (entryAt tables entries) := by
  rcases validateManifest_eq_ok haccepted with ⟨rfl, rfl⟩ | ⟨reference, range, added, rfl, rfl,
    hverified⟩
  · refine ⟨[], yields_none, .nil, ?_⟩
    intro exactPath
    rw [lookupManifestEntry]
    cases portablePathKeyV1 tables exactPath <;> rfl
  · have hvalid := hverified.valid
    refine ⟨range.map KeyedEntry.entry, hverified.canonical.yields hverified.holds hvalid, ?_, ?_⟩
    · rw [List.pairwise_map]
      apply hvalid.ordered.pairwise.imp_of_mem
      intro left right hleft hright hlt key hkey hsame
      rw [(keyOf_entry hvalid hleft).1, Except.ok.injEq] at hkey
      rw [(keyOf_entry hvalid hright).1, Except.ok.injEq] at hsame
      exact hlt.ne (hkey.trans hsame.symm)
    · intro exactPath
      rw [lookupManifestEntry]
      rcases portablePathKeyV1 tables exactPath with error | key
      · rfl
      · have hbelow : lookupBelow blake3 tables source key (maxManifestDepth + 1) reference =
            .ok (entryOfKey range key) :=
          hverified.canonical.lookupBelow_eq hverified.holds hvalid (le_refl _)
        exact hbelow.trans (congrArg Except.ok (entryAt_range hvalid key).symm)

theorem lookupManifestEntry_eq_iteration_sample : ∃ source root entries,
    root.kind = .node ∧ Yields Sample.lengthHash source (some root) entries ∧
      ∀ exactPath, lookupManifestEntry Sample.lengthHash Sample.tables source (some root)
          exactPath =
        (portablePathKeyV1 Sample.tables exactPath).map (entryAt Sample.tables entries) := by
  rcases Sample.pair_accepted with ⟨built, root, -, -, hkind, haccepted⟩
  rcases lookupManifestEntry_eq_iteration built.loadManifestChunk (some root) built.summary
    haccepted with ⟨entries, hyields, -, hlookup⟩
  exact ⟨_, root, entries, hkind, hyields, hlookup⟩

end Proofs

end CheckPo
