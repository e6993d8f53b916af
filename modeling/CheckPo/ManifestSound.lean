/-
Soundness of validation.  A cache is sound when every entry describes the
canonical tree of a valid range whose chunks the source holds and the cache
lists; validation keeps a cache sound whether it succeeds or fails, and what it
accepts is such a tree.
-/
import CheckPo.ManifestChecks
import CheckPo.Hoare

namespace CheckPo

section Hash

variable {blake3 : Bytes → Digest32} {tables : UnicodeTables}
variable {source : ManifestChunkSource}

/-- What validation establishes of a reference. -/
structure Verified (blake3 : Bytes → Digest32) (tables : UnicodeTables)
    (source : ManifestChunkSource) (levels : Nat) (reference : ManifestRef)
    (info : ValidationInfo) (range : List KeyedEntry) (added : Chunks) : Prop where
  valid : ValidRange tables range
  fit : TotalsFit range
  canonical : Canonical blake3 manifestLeafTargetBytes levels range reference added
  holds : Holds (sourceTable source) added
  info_eq : info = rangeInfo levels range

/-- A verified tree that is not too deep fits into fewer levels. -/
theorem Verified.of_depth_lt {levels fewer : Nat} {reference : ManifestRef}
    {info : ValidationInfo} {range : List KeyedEntry} {added : Chunks}
    (h : Verified blake3 tables source levels reference info range added)
    (hdepth : info.maximumRelativeDepth < fewer) :
    Verified blake3 tables source fewer reference info range added := by
  have hinfo := h.info_eq
  subst hinfo
  have hfewer := h.canonical.of_height_lt hdepth
  exact ⟨h.valid, h.fit, hfewer, h.holds, by
    rw [rangeInfo, rangeInfo, h.canonical.height_eq hfewer]⟩

def SoundCache (blake3 : Bytes → Digest32) (tables : UnicodeTables)
    (source : ManifestChunkSource) (cache : ManifestValidationCache) : Prop :=
  ∀ entry ∈ cache.validated, ∃ levels range added,
    Verified blake3 tables source levels entry.1 entry.2 range added ∧
      added.map Prod.fst ⊆ cache.validatedReferences

/-- The estimated heap of the cached entries. -/
def estimatedTotal (entries : List (ManifestRef × ValidationInfo)) : Nat :=
  (entries.map fun entry => entry.2.estimatedBytes).sum

/-- The bookkeeping of a cache and its limits. -/
structure CacheFits (cache : ManifestValidationCache) : Prop where
  nodup : cache.validatedReferences.Nodup
  estimate : cache.estimatedHeapBytes = estimatedTotal cache.validated
  len_le : cache.len ≤ maxManifestValidationChunks
  bytes_le : cache.estimatedHeapBytes ≤ maxManifestValidationCacheBytes

/-- A good cache that lists the given references. -/
structure CacheInv (blake3 : Bytes → Digest32) (tables : UnicodeTables)
    (source : ManifestChunkSource) (known : List ManifestRef)
    (cache : ManifestValidationCache) : Prop where
  sound : SoundCache blake3 tables source cache
  fits : CacheFits cache
  known_mem : known ⊆ cache.validatedReferences

theorem cacheInv_empty :
    CacheInv blake3 tables source [] ManifestValidationCache.empty where
  sound := by simp [SoundCache, ManifestValidationCache.empty]
  fits := ⟨List.nodup_nil, rfl, Nat.zero_le _, Nat.zero_le _⟩
  known_mem := List.nil_subset _

namespace ManifestValidationCache

theorem mem_of_get {cache : ManifestValidationCache} {reference : ManifestRef}
    {info : ValidationInfo} (h : cache.get reference = some info) :
    (reference, info) ∈ cache.validated := by
  simp only [get, Option.map_eq_some_iff] at h
  obtain ⟨entry, hfind, rfl⟩ := h
  have hkey : entry.1 = reference := by simpa using List.find?_some hfind
  rw [← hkey]
  exact List.mem_of_find?_eq_some hfind

theorem get_eq_none_iff {cache : ManifestValidationCache} {reference : ManifestRef} :
    cache.get reference = none ↔ reference ∉ cache.validatedReferences := by
  simp only [get, Option.map_eq_none_iff, List.find?_eq_none, beq_iff_eq,
    validatedReferences, List.mem_map, not_exists, not_and]

/-- The cache with one more entry. -/
def insert (cache : ManifestValidationCache) (reference : ManifestRef)
    (info : ValidationInfo) : ManifestValidationCache :=
  ⟨(reference, info) :: cache.validated, cache.estimatedHeapBytes + info.estimatedBytes⟩

theorem mem_insert_references {cache : ManifestValidationCache}
    {reference item : ManifestRef} {info : ValidationInfo} :
    item ∈ (cache.insert reference info).validatedReferences ↔
      item = reference ∨ item ∈ cache.validatedReferences := by
  simp [insert, validatedReferences]

end ManifestValidationCache

/-- A visit counts one chunk, and fails at the limit or on a second visit. -/
theorem visitChunk_triple (reference : ManifestRef) (post : ValidationState → Prop)
    {pre fail : ValidationState → Prop}
    (hok : ∀ state, pre state → state.visited.length < maxManifestValidationChunks →
      reference ∉ state.visited →
      post ⟨reference :: state.visited, state.cache⟩)
    (hfail : ∀ state, pre state →
      (maxManifestValidationChunks ≤ state.visited.length ∨
        reference ∈ state.visited) → fail state) :
    Triple pre (visitChunk reference) (fun _ => post) fail := by
  refine Triple.get_bind fun state hpre => ?_
  refine Triple.ite (fun hfull => ?_) fun hroom => Triple.ite (fun hseen => ?_)
    fun hfresh => ?_
  · refine Triple.throw fun after heq => ?_
    rw [heq]
    exact hfail state hpre (Or.inl hfull)
  · refine Triple.throw fun after heq => ?_
    rw [heq]
    exact hfail state hpre (Or.inr hseen)
  · exact Triple.set fun _ _ => hok state hpre (not_le.mp hroom) hfresh

/-- An entry is added to the cache unless it is there or does not fit. -/
theorem cacheChunk_triple (reference : ManifestRef) (info : ValidationInfo)
    (post : ValidationState → Prop) {pre fail : ValidationState → Prop}
    (hcached : ∀ state, pre state → reference ∈ state.cache.validatedReferences →
      post state)
    (hadded : ∀ state, pre state → reference ∉ state.cache.validatedReferences →
      state.cache.len < maxManifestValidationChunks →
      state.cache.estimatedHeapBytes + info.estimatedBytes ≤
        maxManifestValidationCacheBytes →
      post ⟨state.visited, state.cache.insert reference info⟩)
    (hfail : ∀ state, pre state → reference ∉ state.cache.validatedReferences →
      (maxManifestValidationChunks ≤ state.cache.len ∨
        maxManifestValidationCacheBytes <
          state.cache.estimatedHeapBytes + info.estimatedBytes) → fail state) :
    Triple pre (cacheChunk reference info) (fun _ => post) fail := by
  refine Triple.get_bind fun state hpre => ?_
  refine Triple.ite (fun hsome => ?_) fun hnone => ?_
  · refine Triple.pure fun after heq => ?_
    rw [heq]
    obtain ⟨found, hfound⟩ := Option.isSome_iff_exists.mp hsome
    exact hcached state hpre
      (List.mem_map_of_mem (ManifestValidationCache.mem_of_get hfound))
  · have hfresh : reference ∉ state.cache.validatedReferences :=
      ManifestValidationCache.get_eq_none_iff.mp (by simpa using hnone)
    refine Triple.ite (fun hfull => ?_) fun hroom => Triple.ite (fun hlarge => ?_)
      fun hsmall => ?_
    · refine Triple.throw fun after heq => ?_
      rw [heq]
      exact hfail state hpre hfresh (Or.inl hfull)
    · refine Triple.throw fun after heq => ?_
      rw [heq]
      exact hfail state hpre hfresh (Or.inr hlarge)
    · exact Triple.set fun _ _ =>
        hadded state hpre hfresh (not_le.mp hroom) (not_lt.mp hsmall)

/-- Adding a verified entry whose tree is listed keeps the cache good. -/
theorem CacheInv.insert {known : List ManifestRef} {cache : ManifestValidationCache}
    (h : CacheInv blake3 tables source known cache) {levels : Nat}
    {reference : ManifestRef} {info : ValidationInfo} {range : List KeyedEntry}
    {added : Chunks}
    (hverified : Verified blake3 tables source levels reference info range added)
    (hadded : ∀ item ∈ added.map Prod.fst, item = reference ∨ item ∈ known)
    (hfresh : reference ∉ cache.validatedReferences)
    (hlen : cache.len < maxManifestValidationChunks)
    (hbytes : cache.estimatedHeapBytes + info.estimatedBytes ≤
      maxManifestValidationCacheBytes) :
    CacheInv blake3 tables source (added.map Prod.fst ++ known)
      (cache.insert reference info) := by
  have hgrow : cache.validatedReferences ⊆
      (cache.insert reference info).validatedReferences := fun item hitem =>
    ManifestValidationCache.mem_insert_references.mpr (Or.inr hitem)
  have hlisted : added.map Prod.fst ⊆
      (cache.insert reference info).validatedReferences := by
    intro item hitem
    rcases hadded item hitem with rfl | hknown
    · exact ManifestValidationCache.mem_insert_references.mpr (Or.inl rfl)
    · exact hgrow (h.known_mem hknown)
  refine ⟨?_, ⟨?_, ?_, hlen, hbytes⟩, ?_⟩
  · intro entry hentry
    rcases List.mem_cons.mp hentry with rfl | hentry
    · exact ⟨levels, range, added, hverified, hlisted⟩
    · obtain ⟨levels', range', added', hverified', hsub⟩ := h.sound entry hentry
      exact ⟨levels', range', added', hverified', List.Subset.trans hsub hgrow⟩
  · exact List.nodup_cons.mpr ⟨hfresh, h.fits.nodup⟩
  · simp only [ManifestValidationCache.insert, h.fits.estimate, estimatedTotal,
      List.map_cons, List.sum_cons]
    omega
  · rw [List.append_subset]
    exact ⟨hlisted, List.Subset.trans h.known_mem hgrow⟩

theorem CacheInv.mono {known fewer : List ManifestRef} {cache : ManifestValidationCache}
    (h : CacheInv blake3 tables source known cache) (hsub : fewer ⊆ known) :
    CacheInv blake3 tables source fewer cache :=
  ⟨h.sound, h.fits, List.Subset.trans hsub h.known_mem⟩

/-- What validating a reference establishes, whatever the cache held before. -/
def ValidatesSoundly (blake3 : Bytes → Digest32) (tables : UnicodeTables)
    (source : ManifestChunkSource) (levels : Nat)
    (validate : ManifestRef → ValidateM ValidationInfo) : Prop :=
  ∀ reference known, Triple
    (fun state => CacheInv blake3 tables source known state.cache)
    (validate reference)
    (fun info state => ∃ range added,
      Verified blake3 tables source levels reference info range added ∧
        CacheInv blake3 tables source (added.map Prod.fst ++ known) state.cache)
    (fun state => CacheInv blake3 tables source known state.cache)

/-- The children read so far, with their trees. -/
structure ChildrenVerified (blake3 : Bytes → Digest32) (tables : UnicodeTables)
    (source : ManifestChunkSource) (levels : Nat) (node : ManifestNode)
    (children : List ManifestChild) (progress : NodeProgress)
    (ranges : List (List KeyedEntry)) (built : List (ManifestRef × Chunks)) : Prop where
  scan : NodeScan tables node children ranges
    (ranges.map (radixHeight manifestLeafTargetBytes levels)) progress
  canonical : List.Forall₂ (fun range chunk =>
    Canonical blake3 manifestLeafTargetBytes levels range chunk.1 chunk.2) ranges built
  refs_eq : built.map Prod.fst = children.map ManifestChild.child
  holds : Holds (sourceTable source) (built.map Prod.snd).flatten

theorem Holds.append {source : ManifestRef → Option Bytes} {left right : Chunks}
    (hleft : Holds source left) (hright : Holds source right) :
    Holds source (left ++ right) := by
  intro chunk hchunk
  exact (List.mem_append.mp hchunk).elim (hleft chunk) (hright chunk)

theorem ChildrenVerified.advance {levels : Nat} {node : ManifestNode}
    {children : List ManifestChild} {progress next : NodeProgress}
    {ranges : List (List KeyedEntry)} {built : List (ManifestRef × Chunks)}
    (h : ChildrenVerified blake3 tables source levels node children progress ranges built)
    {child : ManifestChild} {info : ValidationInfo} {range : List KeyedEntry}
    {added : Chunks}
    (hverified : Verified blake3 tables source levels child.child info range added)
    (hadvance : advanceNode node child info progress = .ok next) :
    ChildrenVerified blake3 tables source levels node (children ++ [child]) next
      (ranges ++ [range]) (built ++ [(child.child, added)]) where
  scan := by
    rw [hverified.info_eq] at hadvance
    rw [List.map_append, List.map_singleton]
    exact h.scan.advance_iff hverified.valid hverified.fit hverified.canonical.ne_nil
      hadvance
  canonical := List.rel_append h.canonical (.cons hverified.canonical .nil)
  refs_eq := by simp [h.refs_eq]
  holds := by
    rw [List.map_append, List.flatten_append]
    refine h.holds.append ?_
    simpa using hverified.holds

theorem ChildrenVerified.start (levels : Nat) (node : ManifestNode) :
    ChildrenVerified blake3 tables source levels node [] NodeProgress.start [] [] where
  scan := NodeScan.start node
  canonical := .nil
  refs_eq := rfl
  holds := by simp [Holds]

theorem validateChildren_sound (known : List ManifestRef)
    (after : List ManifestChild) {levels : Nat}
    {validate : ManifestRef → ValidateM ValidationInfo}
    (hvalidate : ValidatesSoundly blake3 tables source levels validate)
    {node : ManifestNode} {before : List ManifestChild} {progress : NodeProgress}
    {ranges : List (List KeyedEntry)}
    {built : List (ManifestRef × Chunks)}
    (h : ChildrenVerified blake3 tables source levels node before progress ranges built) :
    Triple
      (fun state => CacheInv blake3 tables source
        ((built.map Prod.snd).flatten.map Prod.fst ++ known) state.cache)
      (validateChildren validate node after progress)
      (fun progress state => ∃ ranges built,
        ChildrenVerified blake3 tables source levels node (before ++ after) progress
          ranges built ∧
        CacheInv blake3 tables source
          ((built.map Prod.snd).flatten.map Prod.fst ++ known) state.cache)
      (fun state => CacheInv blake3 tables source known state.cache) := by
  induction after generalizing before progress ranges built with
  | nil =>
      refine Triple.pure fun state hstate => ⟨ranges, built, ?_, hstate⟩
      rwa [List.append_nil]
  | cons child after ih =>
      refine Triple.bind ((hvalidate child.child _).weaken (fun _ hstate => hstate)
        (fun _ _ hpost => hpost)
        fun _ hstate => hstate.mono (List.subset_append_right _ _)) fun info => ?_
      refine Triple.exists_pre fun range => Triple.exists_pre fun added => ?_
      refine Triple.of_pre (p := Verified blake3 tables source levels child.child info
        range added) (fun _ hstate => hstate.1) fun hverified => ?_
      refine Triple.bind (Triple.lift (fun next state hnext hstate =>
        And.intro hnext hstate.2) fun _ _ _ hstate => hstate.2.mono ?_) fun next => ?_
      · exact List.Subset.trans (List.subset_append_right _ _)
          (List.subset_append_right _ _)
      refine Triple.of_pre (fun _ hstate => hstate.1) fun hnext => ?_
      have hstep := ih (h.advance hverified hnext)
      rw [List.append_assoc, List.singleton_append] at hstep
      refine hstep.weaken (fun state hstate => hstate.2.mono ?_) (fun _ _ hpost => hpost)
        fun _ hfail => hfail
      intro item hitem
      simp only [List.map_append, List.flatten_append, List.mem_append, List.map_cons,
        List.map_nil, List.flatten_cons, List.flatten_nil, List.append_nil] at hitem ⊢
      tauto

/-- Recording a verified tree whose other chunks the cache lists. -/
theorem cacheVerified_sound (below : List ManifestRef) {levels : Nat} {reference : ManifestRef}
    {info : ValidationInfo} {range : List KeyedEntry} {added : Chunks}
    {known : List ManifestRef}
    (hverified : Verified blake3 tables source levels reference info range added)
    (hadded : ∀ item ∈ added.map Prod.fst, item = reference ∨ item ∈ below) :
    Triple (fun state => CacheInv blake3 tables source (below ++ known) state.cache)
      (do cacheChunk reference info; pure info)
      (fun info state => ∃ range added,
        Verified blake3 tables source levels reference info range added ∧
          CacheInv blake3 tables source (added.map Prod.fst ++ known) state.cache)
      (fun state => CacheInv blake3 tables source known state.cache) := by
  have hknown : known ⊆ below ++ known := List.subset_append_right _ _
  refine Triple.bind (cacheChunk_triple reference info (fun state =>
      CacheInv blake3 tables source (added.map Prod.fst ++ known) state.cache)
    ?_ ?_ fun state hstate _ _ => hstate.mono hknown) fun _ =>
      Triple.pure fun state hstate => ⟨range, added, hverified, hstate⟩
  · intro state hstate hcached
    refine ⟨hstate.sound, hstate.fits, ?_⟩
    rw [List.append_subset]
    refine ⟨fun item hitem => ?_, List.Subset.trans hknown hstate.known_mem⟩
    rcases hadded item hitem with rfl | hbelow
    · exact hcached
    · exact hstate.known_mem (List.mem_append_left _ hbelow)
  · intro state hstate hfresh hlen hbytes
    refine (hstate.insert hverified (fun item hitem => ?_) hfresh hlen hbytes).mono ?_
    · exact (hadded item hitem).imp id fun hbelow => List.mem_append_left _ hbelow
    · exact List.append_subset.mpr ⟨List.subset_append_left _ _,
        List.Subset.trans hknown (List.subset_append_right _ _)⟩

/-- A leaf that passes is a canonical tree. -/
theorem verified_leaf (levels : Nat) {leaf : ManifestLeaf} {bytes : Bytes}
    {info : ValidationInfo} (hbytes : source (leafRef blake3 bytes) = .ok bytes)
    (hinfo : validateLeaf tables leaf bytes = .ok info) :
    ∃ range, Verified blake3 tables source (levels + 1) (leafRef blake3 bytes) info range
      [(leafRef blake3 bytes, bytes)] := by
  obtain ⟨hencode, range, hvalid, hfit, hne, hleaf, rfl, rfl⟩ :=
    validateLeaf_eq_ok.mp hinfo
  have hlength : leafLen (rangePrefix range) range < 2 ^ 64 := by
    rw [← length_encodeLeaf hencode]
    exact lt_of_le_of_lt (length_encodeLeaf_le hencode) (by decide)
  refine ⟨range, hvalid, hfit, ?_, ?_, ?_⟩
  · exact (canonical_leaf hleaf).mpr ⟨hne, hlength, bytes, hencode, rfl, rfl⟩
  · intro chunk hchunk
    rw [List.mem_singleton.mp hchunk]
    exact sourceTable_eq_some.mpr hbytes
  · rw [rangeInfo, radixHeight, if_pos hleaf]

/-- A node that passes after its children is a canonical tree. -/
theorem verified_node {levels : Nat} {node : ManifestNode} {bytes : Bytes}
    {progress : NodeProgress} {info : ValidationInfo}
    {ranges : List (List KeyedEntry)} {built : List (ManifestRef × Chunks)}
    (hbytes : source (nodeRef blake3 bytes) = .ok bytes)
    (hnode : checkNode node bytes = .ok ())
    (hchildren : ChildrenVerified blake3 tables source levels node node.children progress
      ranges built)
    (hinfo : finishNode node progress = .ok info) :
    Verified blake3 tables source (levels + 1) (nodeRef blake3 bytes) info ranges.flatten
      ((built.map Prod.snd).flatten ++ [(nodeRef blake3 bytes, bytes)]) := by
  obtain ⟨hencode, htwo, hedges⟩ := checkNode_eq_ok.mp hnode
  have hfinished := hchildren.scan.finish htwo hedges hinfo
  refine ⟨⟨hchildren.scan.keyed, hchildren.scan.ordered⟩, hchildren.scan.fit, ?_, ?_, ?_⟩
  · have hlength : node.children.length = ranges.length :=
      hchildren.scan.childRange.length_eq
    refine (canonical_node hfinished.not_leaf).mpr ⟨?_, hfinished.length_lt, ?_, built,
      ?_, bytes, ?_, rfl, rfl⟩
    · have hle := length_flatten_ge hchildren.scan.ranges_ne_nil
      exact List.ne_nil_of_length_pos (by omega)
    · rw [hfinished.children_eq]
      omega
    · rw [hfinished.children_eq]
      exact hchildren.canonical
    · rw [hchildren.refs_eq, ← hfinished.node_eq]
      exact hencode
  · refine hchildren.holds.append fun chunk hchunk => ?_
    rw [List.mem_singleton.mp hchunk]
    exact sourceTable_eq_some.mpr hbytes
  · rw [hfinished.info_eq, rangeInfo, radixHeight_node hfinished.not_leaf,
      hfinished.children_eq, List.map_map]
    rfl

/-- Validation accepts only canonical trees, and keeps the cache good. -/
theorem validateSubtree_sound (levels : Nat) :
    ValidatesSoundly blake3 tables source levels
      (validateSubtree blake3 tables source levels) := by
  induction levels with
  | zero => exact fun reference known => Triple.throw fun state hstate => hstate
  | succ levels ih =>
      intro reference known
      rw [validateSubtree]
      refine Triple.bind (visitChunk_triple reference
        (fun state => CacheInv blake3 tables source known state.cache)
        (fun _ hstate _ _ => hstate) fun _ hstate _ => hstate) fun _ => ?_
      refine Triple.get_bind fun state hstate => ?_
      cases hget : state.cache.get reference with
      | some info =>
          obtain ⟨levels', range, added, hverified, hlisted⟩ :=
            hstate.sound _ (ManifestValidationCache.mem_of_get hget)
          refine Triple.ite (fun hdeep => ?_) fun hdepth => ?_
          · refine Triple.throw fun after heq => ?_
            rw [heq]
            exact hstate
          · refine Triple.pure fun after heq => ?_
            rw [heq]
            have hlevels : info.maximumRelativeDepth < levels + 1 := by omega
            refine ⟨range, added, hverified.of_depth_lt hlevels, hstate.sound,
              hstate.fits, ?_⟩
            rw [List.append_subset]
            exact ⟨hlisted, hstate.known_mem⟩
      | none =>
          refine Triple.bind (Triple.lift (fun chunk after hchunk heq =>
            And.intro hchunk heq) fun _ after _ heq => heq ▸ hstate) fun chunk => ?_
          refine Triple.of_pre (fun _ hpost => hpost.1) fun hchunk => ?_
          obtain ⟨bytes, hbytes, ⟨rfl, leaf, -, rfl⟩ | ⟨rfl, node, -, rfl⟩⟩ :=
            loadChunk_eq_ok.mp hchunk
          · refine Triple.bind (Triple.lift (fun info after hinfo hpost =>
              And.intro hinfo hpost.2) fun _ after _ hpost => hpost.2 ▸ hstate)
              fun info => ?_
            refine Triple.of_pre (fun _ hpost => hpost.1) fun hinfo => ?_
            obtain ⟨range, hverified⟩ := verified_leaf levels hbytes hinfo
            refine (cacheVerified_sound [] hverified (by simp)).weaken ?_
              (fun _ _ hpost => hpost) fun _ hfail => hfail
            rintro after ⟨-, heq⟩
            exact heq ▸ hstate
          · refine Triple.bind (Triple.lift (fun _ after hnode hpost =>
              And.intro hnode hpost.2) fun _ after _ hpost => hpost.2 ▸ hstate)
              fun _ => ?_
            refine Triple.of_pre (fun _ hpost => hpost.1) fun hnode => ?_
            have hloop := validateChildren_sound known node.children ih
              (ChildrenVerified.start levels node)
            refine Triple.bind (hloop.weaken ?_ (fun _ _ hpost => hpost)
              fun _ hfail => hfail) fun progress => ?_
            · rintro after ⟨-, heq⟩
              exact heq ▸ hstate
            refine Triple.exists_pre fun ranges => Triple.exists_pre fun built => ?_
            refine Triple.of_pre (fun _ hpost => hpost.1) fun hchildren => ?_
            refine Triple.bind (Triple.lift (fun info after hinfo hpost =>
              And.intro hinfo hpost.2) fun _ after _ hpost =>
                hpost.2.mono (List.subset_append_right _ _)) fun info => ?_
            refine Triple.of_pre (fun _ hpost => hpost.1) fun hinfo => ?_
            have hverified := verified_node hbytes hnode hchildren hinfo
            refine (cacheVerified_sound _ hverified ?_).weaken (fun _ hpost => hpost.2)
              (fun _ _ hpost => hpost) fun _ hfail => hfail
            intro item hitem
            rw [List.map_append, List.mem_append] at hitem
            rcases hitem with hitem | hitem
            · exact Or.inr hitem
            · exact Or.inl (by simpa using hitem)

end Hash

end CheckPo
