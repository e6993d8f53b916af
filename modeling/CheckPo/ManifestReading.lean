/-
An accepted manifest is what the writer builds from the entries it holds.  The instance
is a manifest whose root is a node.
-/
import CheckPo.LongPathChain

namespace CheckPo

section Hash

variable {blake3 : Bytes → Digest32} {tables : UnicodeTables}

/-- An accepted root is the one the writer builds from the entries it yields, in
any order, with the same summary and exactly the reachable chunks; so an
accepted root with the same entries, in any source, is the same root. -/
theorem acceptedManifest_rebuilt (source : ManifestChunkSource)
    (root : Option ManifestRef) (summary : ManifestSummary)
    (haccepted : validateManifest blake3 tables source root summary = .ok ()) :
    ∃ entries, Yields blake3 source root entries ∧
      (∀ reordered : List ManifestEntry, reordered.Perm entries →
        ∃ built, buildManifest blake3 tables reordered = .ok built ∧
          built.root = root ∧ built.summary = summary ∧
          Chunks.NodupKeys built.chunks ∧
          ∀ reference bytes, (reference, bytes) ∈ built.chunks ↔
            Reachable source root reference ∧ source reference = .ok bytes) ∧
      ∀ source' root' summary' entries',
        validateManifest blake3 tables source' root' summary' = .ok () →
        Yields blake3 source' root' entries' →
        (∀ entry, entry ∈ entries' ↔ entry ∈ entries) → root' = root := by
  obtain ⟨entries, hyields, hnodup, built, hbuilt, hroot, hsummary, hkeys, hmem⟩ :=
    acceptedManifest_built haccepted
  refine ⟨entries, hyields, fun reordered hperm =>
    ⟨built, hbuilt reordered hperm, hroot, hsummary, hkeys, hmem⟩, ?_⟩
  intro source' root' summary' entries' haccepted' hyields' hsame
  obtain ⟨read, hread, hreadNodup, built', hbuilt', hroot', -⟩ :=
    acceptedManifest_built haccepted'
  obtain rfl := hread.unique hyields'
  have hperm : read.Perm entries := (List.perm_ext_iff_of_nodup hreadNodup hnodup).mpr hsame
  have hsameBuilt := (hbuilt' read (List.Perm.refl _)).symm.trans (hbuilt read hperm)
  rw [Except.ok.injEq] at hsameBuilt
  rw [← hroot', ← hroot, hsameBuilt]

end Hash

namespace Sample

/-- Two files with paths too long for one leaf. -/
def pairRange : List KeyedEntry := longRange 40000 2

theorem pairFits : ChainFits 40000 2 :=
  ⟨by decide, by decide⟩

theorem radixRanges_pair {length : Nat} (h : ChainFits length 2) (levels : Nat) :
    radixRanges manifestLeafTargetBytes (levels + 2) (longRange length 2) =
      [longRange length 1, longRange (length + 1) 1, longRange length 2] := by
  have hleaf : ∀ length, radixRanges manifestLeafTargetBytes (levels + 1) (longRange length 1) =
      [longRange length 1] := by
    intro length
    rw [radixRanges, if_pos (show RangeIsLeaf _ _ from Or.inr rfl)]
  have hfirst : radixRanges manifestLeafTargetBytes (levels + 1) [longKeyed length] =
      [longRange length 1] := hleaf length
  rw [radixRanges, if_neg h.not_leaf, rangeChildren_longRange, List.flatMap_cons,
    List.flatMap_cons, List.flatMap_nil, hfirst, hleaf]
  rfl

theorem pairRange_fitsReader : FitsReader pairRange := by
  have hranges := radixRanges_pair pairFits (maxManifestDepth - 1)
  rw [show maxManifestDepth - 1 + 2 = maxManifestDepth + 1 from rfl] at hranges
  rw [pairRange, FitsReader, hranges]
  simp only [List.map_cons, List.map_nil, List.sum_cons, List.sum_nil, firstKey_longRange,
    lastKey_longRange, length_longKey, List.length_cons, List.length_nil]
  decide

/-- The manifest of the two files: a node over two leaves, which the reader accepts. -/
theorem pair_accepted : ∃ built root, buildManifest lengthHash tables
      (pairRange.map KeyedEntry.entry) = .ok built ∧
    built.root = some root ∧ root.kind = .node ∧
    validateManifest lengthHash tables built.loadManifestChunk (some root) built.summary =
      .ok () := by
  obtain ⟨root, added, hcanonical, -, -, hnodup⟩ := canonical_longRange pairFits
  obtain ⟨-, -, -, -, -, bytes, -, hroot, -⟩ := (canonical_node pairFits.not_leaf).mp hcanonical
  obtain ⟨built, hbuilt, hmanifest⟩ := buildManifest_of_canonical (List.Perm.refl _)
    pairFits.validRange pairFits.totalsFit
    (hcanonical.mono (show 2 ≤ maxManifestDepth + 1 by decide)) hnodup.holds
  have hholds : Holds (sourceTable built.loadManifestChunk) added := by
    rw [sourceTable_loadManifestChunk]
    exact fun chunk hchunk => hmanifest.nodup.holds chunk ((hmanifest.mem chunk).mpr hchunk)
  refine ⟨built, root, hbuilt, hmanifest.root_eq, hroot ▸ rfl, ?_⟩
  rw [← hmanifest.root_eq]
  exact (hmanifest.accepted_iff pairFits.validRange pairFits.totalsFit hholds).mpr
    pairRange_fitsReader

theorem acceptedManifest_rebuilt_sample : ∃ source root entries,
    root.kind = .node ∧ Yields lengthHash source (some root) entries ∧
      ∃ built, buildManifest lengthHash tables entries.reverse = .ok built ∧
        built.root = some root := by
  obtain ⟨written, root, -, -, hkind, haccepted⟩ := pair_accepted
  obtain ⟨entries, hyields, hbuilt, -⟩ := acceptedManifest_rebuilt written.loadManifestChunk
    (some root) written.summary haccepted
  obtain ⟨built, hbuild, hroot, -⟩ := hbuilt entries.reverse entries.reverse_perm
  exact ⟨_, root, entries, hkind, hyields, built, hbuild, hroot⟩

end Sample

end CheckPo
