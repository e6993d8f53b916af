/-
The writer as a whole: an accepted list of entries, sorted by portable key, is
stored as the canonical tree of that range, and the range depends on the list
only up to order.
-/
import CheckPo.ManifestBuilt

namespace CheckPo

theorem sortByKey_perm (entries : List KeyedEntry) :
    (sortByKey entries).Perm entries :=
  List.mergeSort_perm entries _

/-- The range of a list is its only ordering with increasing keys. -/
theorem sortByKey_eq {entries range : List KeyedEntry} (hperm : entries.Perm range)
    (hordered : KeysOrdered range) : sortByKey entries = range := by
  have hsorted : (sortByKey entries).Pairwise fun left right => left.key ≤ right.key := by
    have h := @List.pairwise_mergeSort KeyedEntry
      (fun left right => decide (left.key ≤ right.key))
      (fun a b c => by simpa using le_trans) (fun a b => by simpa using le_total _ _)
      entries
    simpa [sortByKey] using h
  refine List.Perm.eq_of_pairwise ?_ hsorted
    (hordered.pairwise.imp fun hlt => le_of_lt hlt)
    ((sortByKey_perm entries).trans hperm)
  intro left right hleft hright hlr hrl
  have hmem : left ∈ range :=
    ((sortByKey_perm entries).trans hperm).subset hleft
  exact List.inj_on_of_nodup_map hordered.nodup_keys hmem hright
    (le_antisymm hlr hrl)

/-- Keyed entries are determined by their entries, so they permute together. -/
theorem perm_of_entries_perm {tables : UnicodeTables} {left right : List KeyedEntry}
    (hleft : ∀ keyed ∈ left, keyedEntry tables keyed.entry = .ok keyed)
    (hright : ∀ keyed ∈ right, keyedEntry tables keyed.entry = .ok keyed)
    (h : (left.map KeyedEntry.entry).Perm (right.map KeyedEntry.entry)) :
    left.Perm right := by
  have hkey := h.map (keyedEntry tables)
  have hleftMap : left.map (keyedEntry tables ∘ KeyedEntry.entry) =
      left.map Except.ok := List.map_congr_left hleft
  have hrightMap : right.map (keyedEntry tables ∘ KeyedEntry.entry) =
      right.map Except.ok := List.map_congr_left hright
  rw [List.map_map, List.map_map, hleftMap, hrightMap] at hkey
  exact (List.map_perm_map_iff (fun _ _ heq => Except.ok.inj heq)).mp hkey

section Hash

variable {blake3 : Bytes → Digest32} {tables : UnicodeTables} {target : Nat}

/-- The manifest of a nonempty range: its root, its totals and exactly the
chunks of its tree, each stored once. -/
structure ManifestOf (blake3 : Bytes → Digest32) (target : Nat)
    (range : List KeyedEntry) (root : ManifestRef) (added : Chunks)
    (built : BuiltManifest) : Prop where
  canonical : Canonical blake3 target (maxManifestDepth + 1) range root added
  root_eq : built.root = some root
  summary_eq : built.summary = totals range
  nodup : Chunks.NodupKeys built.chunks
  mem : ∀ chunk, chunk ∈ built.chunks ↔ chunk ∈ added

theorem rangeAt_zero {range : List KeyedEntry} (hfit : TotalsFit range) :
    RangeAt (range.inits.map totals) 0 range :=
  ⟨[], [], by simpa using hfit, by simp, rfl⟩

theorem summaryPrefixes_zero_eq_ok {range : List KeyedEntry}
    {prefixes : List ManifestSummary} :
    summaryPrefixes .zero range = .ok prefixes ↔
      TotalsFit range ∧ range.inits.map totals = prefixes := by
  have h := @summaryPrefixes_eq_ok [] range TotalsFit.nil prefixes
  simpa [totals_nil] using h

theorem buildManifest_empty :
    buildManifestWithLeafTarget blake3 tables [] target =
      .ok ⟨none, .zero, []⟩ := rfl

/-- What the writer stores for a nonempty list. -/
theorem buildManifest_eq_ok {entries : List ManifestEntry} (hne : entries ≠ [])
    {built : BuiltManifest}
    (h : buildManifestWithLeafTarget blake3 tables entries target = .ok built) :
    ∃ range root added, (range.map KeyedEntry.entry).Perm entries ∧
      ValidRange tables range ∧ TotalsFit range ∧
      ManifestOf blake3 target range root added built := by
  simp only [buildManifestWithLeafTarget, if_neg hne, except_bind_eq_ok,
    except_pure_eq_ok, summaryPrefixes_zero_eq_ok] at h
  obtain ⟨keyed, hkeyed, _, hordered, _, ⟨hfit, rfl⟩, result, hbuild, rfl⟩ := h
  obtain ⟨hmap, hkeys⟩ := mapM_keyedEntry_eq_ok.mp hkeyed
  have hperm := sortByKey_perm keyed
  have hrange : sortByKey keyed ≠ [] := by
    intro hnil
    rw [hnil, List.nil_perm] at hperm
    rw [← hmap, hperm] at hne
    exact hne rfl
  obtain ⟨added, hcanonical, hsummary, hextends⟩ :=
    buildRange_canonical hrange (rangeAt_zero hfit) hbuild
  refine ⟨sortByKey keyed, result.1.reference, added, ?_,
    ⟨?_, validateOrderedKeys_eq_ok.mp hordered⟩, hfit, hcanonical, rfl, hsummary, hextends.nodup List.nodup_nil, ?_⟩
  · rw [← hmap]
    exact hperm.map KeyedEntry.entry
  · intro keyed' hkeyed'
    exact hkeys keyed' (hperm.subset hkeyed')
  · intro chunk
    simp [hextends.mem]

/-- The writer accepts every list whose range has a canonical tree with
consistent chunks. -/
theorem buildManifest_of_canonical {entries : List ManifestEntry}
    {range : List KeyedEntry} {root : ManifestRef} {added : Chunks}
    {source : ManifestRef → Option Bytes}
    (hperm : (range.map KeyedEntry.entry).Perm entries)
    (hvalid : ValidRange tables range) (hfit : TotalsFit range)
    (hcanonical : Canonical blake3 target (maxManifestDepth + 1) range root added)
    (hadded : Holds source added) :
    ∃ built, buildManifestWithLeafTarget blake3 tables entries target = .ok built ∧
      ManifestOf blake3 target range root added built := by
  have hrange := hcanonical.ne_nil
  have hne : entries ≠ [] := by
    rintro rfl
    rw [List.perm_nil, List.map_eq_nil_iff] at hperm
    exact hrange hperm
  obtain ⟨keyed, hkeyed⟩ : ∃ keyed, entries.mapM (keyedEntry tables) = .ok keyed := by
    apply mapM_ok_of_forall
    intro entry hentry
    obtain ⟨item, hitem, rfl⟩ := List.mem_map.mp (hperm.symm.subset hentry)
    exact ⟨item, hvalid.keyed item hitem⟩
  obtain ⟨hmap, hkeys⟩ := mapM_keyedEntry_eq_ok.mp hkeyed
  have hkeyedPerm : keyed.Perm range :=
    perm_of_entries_perm hkeys hvalid.keyed (hmap ▸ hperm.symm)
  obtain ⟨after, hbuild, -⟩ := buildRange_of_canonical (rangeAt_zero hfit)
    (show Holds source [] by simp [Holds]) hadded hcanonical
  obtain ⟨added', hcanonical', hsummary, hextends⟩ :=
    buildRange_canonical hrange (rangeAt_zero hfit) hbuild
  obtain ⟨-, rfl⟩ := hcanonical.unique hcanonical'
  refine ⟨⟨some root, totals range, after⟩, ?_, hcanonical, rfl, rfl,
    hextends.nodup List.nodup_nil, fun chunk => by simp [hextends.mem]⟩
  simp only [buildManifestWithLeafTarget, if_neg hne, except_bind_eq_ok,
    except_pure_eq_ok, summaryPrefixes_zero_eq_ok]
  refine ⟨keyed, hkeyed, (), ?_, _, ⟨?_, rfl⟩, (⟨root, totals range⟩, after), ?_, rfl⟩
  all_goals rw [sortByKey_eq hkeyedPerm hvalid.ordered]
  · exact validateOrderedKeys_eq_ok.mpr hvalid.ordered
  · exact hfit
  · exact hbuild

/-- The writer's result does not depend on the order of its entries. -/
theorem buildManifest_perm {entries reordered : List ManifestEntry}
    (hperm : reordered.Perm entries) {built : BuiltManifest}
    (h : buildManifestWithLeafTarget blake3 tables entries target = .ok built) :
    buildManifestWithLeafTarget blake3 tables reordered target = .ok built := by
  by_cases hne : entries = []
  · rw [hne, List.perm_nil] at hperm
    rw [hperm, ← hne]
    exact h
  · have hne' : reordered ≠ [] := by
      rintro rfl
      exact hne (List.nil_perm.mp hperm)
    simp only [buildManifestWithLeafTarget, if_neg hne, except_bind_eq_ok] at h
    obtain ⟨keyed, hkeyed, _, hordered, hrest⟩ := h
    obtain ⟨rfl, hkeys⟩ := mapM_keyedEntry_eq_ok.mp hkeyed
    obtain ⟨keyed', hkeyed'⟩ :
        ∃ keyed', reordered.mapM (keyedEntry tables) = .ok keyed' := by
      apply mapM_ok_of_forall
      intro entry hentry
      obtain ⟨item, hitem, rfl⟩ := List.mem_map.mp (hperm.subset hentry)
      exact ⟨item, hkeys item hitem⟩
    obtain ⟨rfl, hkeys'⟩ := mapM_keyedEntry_eq_ok.mp hkeyed'
    have hsort : sortByKey keyed' = sortByKey keyed :=
      sortByKey_eq ((perm_of_entries_perm hkeys' hkeys hperm).trans
        (sortByKey_perm keyed).symm) (validateOrderedKeys_eq_ok.mp hordered)
    simp only [buildManifestWithLeafTarget, if_neg hne', except_bind_eq_ok]
    exact ⟨keyed', hkeyed', (), by rw [hsort, hordered], by rw [hsort]; exact hrest⟩

end Hash

end CheckPo
