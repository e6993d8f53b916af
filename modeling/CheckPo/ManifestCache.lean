/-
One validation cache shared by a sequence of snapshots.  A shared cache never
accepts what an empty one rejects; it rejects a root that is valid on its own
exactly when the chunks it does not hold yet do not fit beside those it holds.
-/
import CheckPo.LongPaths

namespace CheckPo

def maxRebuildValidationCacheChunks : Nat := 100000
def maxRebuildValidationCacheBytes : Nat := 64 * 1024 * 1024

/-- The callers' reset between two snapshots. -/
def resetValidationCache (cache : ManifestValidationCache) : ManifestValidationCache :=
  if maxRebuildValidationCacheChunks ≤ cache.len ∨
      maxRebuildValidationCacheBytes ≤ cache.estimatedHeapBytes then .empty
  else cache

/-- A snapshot root's manifest and the summary stored beside it. -/
abbrev SnapshotManifest := Option ManifestRef × ManifestSummary

/-- Whether validation accepted. -/
def accepted (result : SnapshotV2Result Unit) : Bool := result = .ok ()

theorem accepted_iff {result : SnapshotV2Result Unit} :
    accepted result = true ↔ result = .ok () := by
  simp [accepted]

section Hash

variable (blake3 : Bytes → Digest32) (tables : UnicodeTables)
variable (source : ManifestChunkSource)

/-- The loop over the snapshots of `build_snapshot_index` and `verify`: each is
validated with the cache the ones before it left. -/
def validateSequence : List SnapshotManifest → ManifestValidationCache → List Bool
  | [], _ => []
  | (root, summary) :: rest, cache =>
      let (result, cache) := validateManifestCached blake3 tables source root summary cache
      accepted result :: validateSequence rest (resetValidationCache cache)

/-- Every snapshot validated on its own. -/
def validateAlone (snapshots : List SnapshotManifest) : List Bool :=
  snapshots.map fun (root, summary) =>
    accepted (validateManifest blake3 tables source root summary)

/-- The entries a cache holds of a tree. -/
def treeEntries (range : List KeyedEntry) (added : Chunks) :
    List (ManifestRef × ValidationInfo) :=
  (added.map Prod.fst).zip
    ((radixRanges manifestLeafTargetBytes (maxManifestDepth + 1) range).map
      (rangeInfo (maxManifestDepth + 1)))

/-- The entries of a tree that the cache does not hold. -/
def newEntries (cache : ManifestValidationCache) (range : List KeyedEntry)
    (added : Chunks) : List (ManifestRef × ValidationInfo) :=
  (treeEntries range added).filter fun entry => entry.1 ∉ cache.validatedReferences

/-- The tree's new entries fit beside the cached ones. -/
def FitsBeside (cache : ManifestValidationCache) (range : List KeyedEntry)
    (added : Chunks) : Prop :=
  cache.len + (newEntries cache range added).length ≤ maxManifestValidationChunks ∧
    cache.estimatedHeapBytes + estimatedTotal (newEntries cache range added) ≤
      maxManifestValidationCacheBytes

/-- A root of a valid tree that fits an empty cache finds room in this one. -/
def FindsRoom (cache : ManifestValidationCache) (root : ManifestRef)
    (summary : ManifestSummary) : Prop :=
  ∀ range added, Verified blake3 tables source (maxManifestDepth + 1) root
      (rangeInfo (maxManifestDepth + 1) range) range added →
    totals range = summary → FitsBeside .empty range added →
    FitsBeside cache range added

/-- Every root finds room in the cache that the ones before it left. -/
def EachFindsRoom : List SnapshotManifest → ManifestValidationCache → Prop
  | [], _ => True
  | (root, summary) :: rest, cache =>
      (∀ reference, root = some reference →
        FindsRoom blake3 tables source cache reference summary) ∧
      EachFindsRoom rest (resetValidationCache
        (validateManifestCached blake3 tables source root summary cache).2)

variable {blake3 tables source}

theorem CacheInv.reset {cache : ManifestValidationCache}
    (h : CacheInv blake3 tables source [] cache) :
    CacheInv blake3 tables source [] (resetValidationCache cache) := by
  rw [resetValidationCache]
  split
  · exact cacheInv_empty
  · exact h

/-- The entries of a verified tree, chunk by chunk. -/
theorem Verified.treeEntries {root : ManifestRef} {info : ValidationInfo}
    {range : List KeyedEntry} {added : Chunks}
    (h : Verified blake3 tables source (maxManifestDepth + 1) root info range added) :
    (CheckPo.treeEntries range added).map Prod.fst = added.map Prod.fst ∧
      ∀ entry ∈ CheckPo.treeEntries range added, ∃ part below,
        Verified blake3 tables source (maxManifestDepth + 1) entry.1 entry.2 part below := by
  have hranges := h.canonical.chunks_ranges
  have hlength := hranges.length_eq
  refine ⟨?_, ?_⟩
  · rw [CheckPo.treeEntries, List.map_fst_zip]
    simp [hlength]
  · rintro ⟨reference, info'⟩ hentry
    have hpairs : List.Forall₂ (fun reference info => ∃ part below,
        Verified blake3 tables source (maxManifestDepth + 1) reference info part below)
        (added.map Prod.fst)
        ((radixRanges manifestLeafTargetBytes (maxManifestDepth + 1) range).map
          (rangeInfo (maxManifestDepth + 1))) := by
      rw [List.forall₂_map_left_iff, List.forall₂_map_right_iff]
      refine hranges.imp ?_
      rintro chunk part ⟨below, hbelow, -, hsub, hpart⟩
      exact ⟨part, below, h.valid.of_part hpart, h.fit.of_part hpart, hbelow,
        fun item hitem => h.holds item (hsub hitem), rfl⟩
    exact (List.forall₂_iff_zip.mp hpairs).2 hentry

/-- Two entries of a good cache and a tree that share a reference are equal. -/
theorem entry_unique (entry entry' : ManifestRef × ValidationInfo) {levels more : Nat}
    {range range' : List KeyedEntry} {added added' : Chunks}
    (h : Verified blake3 tables source levels entry.1 entry.2 range added)
    (h' : Verified blake3 tables source more entry'.1 entry'.2 range' added')
    (href : entry.1 = entry'.1) : entry = entry' :=
  Prod.ext href (h.info_unique (href ▸ h')).1

/-- The cached entries and a tree's new ones, without repetition. -/
theorem Verified.nodup_with_new {cache : ManifestValidationCache}
    (hcache : CacheInv blake3 tables source [] cache) {root : ManifestRef}
    {info : ValidationInfo} {range : List KeyedEntry} {added : Chunks}
    (h : Verified blake3 tables source (maxManifestDepth + 1) root info range added) :
    ((cache.validated ++ newEntries cache range added).map Prod.fst).Nodup := by
  have hrefs := h.canonical.refs_nodup h.holds h.valid
  rw [← h.treeEntries.1] at hrefs
  rw [List.map_append, List.nodup_append']
  refine ⟨hcache.fits.nodup, hrefs.sublist (List.filter_sublist.map _), ?_⟩
  intro reference hcached hnew
  obtain ⟨entry, hentry, rfl⟩ := List.mem_map.mp hnew
  rw [newEntries, List.mem_filter, decide_eq_true_iff] at hentry
  exact hentry.2 hcached

/-- The cached entries and a tree's new ones describe all its chunks. -/
theorem Verified.listedIn {cache : ManifestValidationCache}
    (hcache : CacheInv blake3 tables source [] cache) {root : ManifestRef}
    {info : ValidationInfo} {range : List KeyedEntry} {added : Chunks}
    (h : Verified blake3 tables source (maxManifestDepth + 1) root info range added) :
    ListedIn blake3 tables source (cache.validated ++ newEntries cache range added)
      added := by
  intro chunk hchunk levels info' part below hverified
  obtain ⟨hrefs, hentries⟩ := h.treeEntries
  have hmem : chunk.1 ∈ (CheckPo.treeEntries range added).map Prod.fst := by
    rw [hrefs]
    exact List.mem_map_of_mem hchunk
  obtain ⟨entry, hentry, href⟩ := List.mem_map.mp hmem
  obtain ⟨part', below', hverified'⟩ := hentries entry hentry
  rw [List.mem_append]
  by_cases hcached : chunk.1 ∈ cache.validatedReferences
  · obtain ⟨cachedEntry, hcachedEntry, hcachedRef⟩ := List.mem_map.mp hcached
    obtain ⟨levels', part'', below'', hcachedVerified, -⟩ :=
      hcache.sound cachedEntry hcachedEntry
    have heq : (chunk.1, info') = cachedEntry :=
      entry_unique (chunk.1, info') _ hverified hcachedVerified hcachedRef.symm
    exact Or.inl (heq ▸ hcachedEntry)
  · have heq : (chunk.1, info') = entry :=
      entry_unique (chunk.1, info') _ hverified hverified' href.symm
    refine Or.inr (List.mem_filter.mpr ⟨heq ▸ hentry, ?_⟩)
    simpa using hcached

/-- With room for its new entries, a verified tree is accepted. -/
theorem Verified.accepted_of_limits {cache : ManifestValidationCache}
    (hcache : CacheInv blake3 tables source [] cache) {root : ManifestRef}
    {info : ValidationInfo} {range : List KeyedEntry} {added : Chunks}
    (h : Verified blake3 tables source (maxManifestDepth + 1) root info range added)
    (hlimits : WithinLimits (cache.validated ++ newEntries cache range added)) :
    (validateManifestCached blake3 tables source (some root) info.summary cache).1 =
      .ok () := by
  have hinfo := h.info_eq
  subst hinfo
  have hcomplete := validateSubtree_complete hlimits (maxManifestDepth + 1) root range
    added [] h (h.listedIn hcache) (by simp)
  have hready : Ready blake3 tables source (cache.validated ++ newEntries cache range added)
      ([] ++ added.map Prod.fst) ⟨[], cache⟩ :=
    ⟨hcache, ⟨List.subset_append_left _ _, List.nodup_nil, List.nil_subset _⟩, by simp⟩
  obtain ⟨result, after, hrun, hresult, -⟩ := hcomplete.returns hready
  simp only [validateManifestCached, hrun, hresult, ne_eq, not_true_eq_false, if_false]

/-- A good cache that lists references holds what is verified of them. -/
theorem CacheInv.entry_mem {cache : ManifestValidationCache} {known : List ManifestRef}
    (hcache : CacheInv blake3 tables source known cache)
    {entry : ManifestRef × ValidationInfo} {levels : Nat} {range : List KeyedEntry}
    {added : Chunks}
    (h : Verified blake3 tables source levels entry.1 entry.2 range added)
    (hknown : entry.1 ∈ known) : entry ∈ cache.validated := by
  obtain ⟨cached, hcached, href⟩ := List.mem_map.mp (hcache.known_mem hknown)
  obtain ⟨levels', range', added', hverified, -⟩ := hcache.sound cached hcached
  rw [entry_unique entry cached h hverified href.symm]
  exact hcached

/-- After an accepted root the cache holds what it held and the root's tree. -/
theorem accepted_entries {cache : ManifestValidationCache}
    (hcache : CacheInv blake3 tables source [] cache) {root : ManifestRef}
    {summary : ManifestSummary}
    (h : (validateManifestCached blake3 tables source (some root) summary cache).1 =
      .ok ()) :
    ∃ info range added,
      Verified blake3 tables source (maxManifestDepth + 1) root info range added ∧
      info.summary = summary ∧
      cache.validated ++ newEntries cache range added ⊆
        (validateManifestCached blake3 tables source (some root) summary
          cache).2.validated ∧
      CacheFits (validateManifestCached blake3 tables source (some root) summary cache).2 := by
  have hlisted : CacheInv blake3 tables source cache.validatedReferences cache :=
    ⟨hcache.sound, hcache.fits, List.Subset.refl _⟩
  obtain ⟨info, range, added, hverified, hsummary, hafter⟩ :=
    (validateManifestCached_sound hlisted (some root) summary).2 h
  refine ⟨info, range, added, hverified, hsummary, ?_, hafter.fits⟩
  rw [List.append_subset]
  constructor
  · intro entry hentry
    obtain ⟨levels, range', added', hcached, -⟩ := hcache.sound entry hentry
    exact hafter.entry_mem hcached
      (List.mem_append_right _ (List.mem_map_of_mem hentry))
  · intro entry hentry
    obtain ⟨hrefs, hentries⟩ := hverified.treeEntries
    have htree := (List.mem_filter.mp hentry).1
    obtain ⟨part, below, hentryVerified⟩ := hentries entry htree
    refine hafter.entry_mem hentryVerified (List.mem_append_left _ ?_)
    rw [← hrefs]
    exact List.mem_map_of_mem htree

/-- An accepted tree and the cache before it were within the limits. -/
theorem withinLimits_of_accepted {cache : ManifestValidationCache}
    (hcache : CacheInv blake3 tables source [] cache) {root : ManifestRef}
    {summary : ManifestSummary}
    (h : (validateManifestCached blake3 tables source (some root) summary cache).1 =
      .ok ()) :
    ∃ info range added,
      Verified blake3 tables source (maxManifestDepth + 1) root info range added ∧
      info.summary = summary ∧
      WithinLimits (cache.validated ++ newEntries cache range added) := by
  obtain ⟨info, range, added, hverified, hsummary, hsub, hfits⟩ :=
    accepted_entries hcache h
  obtain ⟨hlength, hbytes⟩ :=
    estimatedTotal_le_of_subset (hverified.nodup_with_new hcache) hsub
  refine ⟨info, range, added, hverified, hsummary, ?_, ?_⟩
  · exact le_trans hlength hfits.len_le
  · exact le_trans hbytes (hfits.estimate ▸ hfits.bytes_le)

theorem estimatedTotal_append (left right : List (ManifestRef × ValidationInfo)) :
    estimatedTotal (left ++ right) = estimatedTotal left + estimatedTotal right := by
  simp [estimatedTotal]

/-- The limits, in terms of what the cache counts. -/
theorem withinLimits_iff {cache : ManifestValidationCache} (hfits : CacheFits cache)
    {range : List KeyedEntry} {added : Chunks} :
    WithinLimits (cache.validated ++ newEntries cache range added) ↔
      FitsBeside cache range added := by
  rw [FitsBeside, hfits.estimate, ← estimatedTotal_append]
  constructor
  · exact fun h => ⟨by simpa [ManifestValidationCache.len] using h.length_le, h.bytes_le⟩
  · exact fun h => ⟨by simpa [ManifestValidationCache.len] using h.1, h.2⟩

/-- Acceptance with a good cache: a valid tree with the stored summary, whose new
entries fit beside the cached ones. -/
theorem validateManifestCached_eq_ok {cache : ManifestValidationCache}
    (hcache : CacheInv blake3 tables source [] cache) (root : ManifestRef)
    (summary : ManifestSummary) :
    (validateManifestCached blake3 tables source (some root) summary cache).1 = .ok () ↔
      ∃ range added, Verified blake3 tables source (maxManifestDepth + 1) root
          (rangeInfo (maxManifestDepth + 1) range) range added ∧
        totals range = summary ∧ FitsBeside cache range added := by
  constructor
  · intro h
    obtain ⟨info, range, added, hverified, rfl, hlimits⟩ := withinLimits_of_accepted hcache h
    have hinfo := hverified.info_eq
    subst hinfo
    exact ⟨range, added, hverified, rfl, (withinLimits_iff hcache.fits).mp hlimits⟩
  · rintro ⟨range, added, hverified, rfl, hfits⟩
    exact hverified.accepted_of_limits hcache ((withinLimits_iff hcache.fits).mpr hfits)

/-- A tree has one range and one list of chunks. -/
theorem Verified.unique {root : ManifestRef} {info info' : ValidationInfo}
    {range range' : List KeyedEntry} {added added' : Chunks} {levels : Nat}
    (h : Verified blake3 tables source levels root info range added)
    (h' : Verified blake3 tables source levels root info' range' added') :
    info = info' ∧ range = range' ∧ added = added' := by
  obtain ⟨rfl, rfl⟩ := h.info_unique h'
  exact ⟨rfl, rfl, (h.canonical.unique h'.canonical).2⟩

/-- An empty cache's entries of a tree are cached or new for another cache. -/
theorem Verified.treeEntries_subset {cache : ManifestValidationCache}
    (hcache : CacheInv blake3 tables source [] cache) {root : ManifestRef}
    {info : ValidationInfo} {range : List KeyedEntry} {added : Chunks}
    (h : Verified blake3 tables source (maxManifestDepth + 1) root info range added) :
    ManifestValidationCache.empty.validated ++
        newEntries ManifestValidationCache.empty range added ⊆
      cache.validated ++ newEntries cache range added := by
  refine List.append_subset.mpr ⟨List.nil_subset _, fun entry hentry => ?_⟩
  have htree := (List.mem_filter.mp hentry).1
  obtain ⟨part, below, hverified⟩ := h.treeEntries.2 entry htree
  rw [List.mem_append]
  by_cases hcached : entry.1 ∈ cache.validatedReferences
  · have hlisted : CacheInv blake3 tables source cache.validatedReferences cache :=
      ⟨hcache.sound, hcache.fits, List.Subset.refl _⟩
    exact Or.inl (hlisted.entry_mem hverified hcached)
  · exact Or.inr (List.mem_filter.mpr ⟨htree, by simpa using hcached⟩)

/-- What fits beside a good cache fits an empty one. -/
theorem Verified.fits_empty {cache : ManifestValidationCache}
    (hcache : CacheInv blake3 tables source [] cache) {root : ManifestRef}
    {info : ValidationInfo} {range : List KeyedEntry} {added : Chunks}
    (h : Verified blake3 tables source (maxManifestDepth + 1) root info range added)
    (hfits : FitsBeside cache range added) : FitsBeside .empty range added := by
  have hempty := @cacheInv_empty blake3 tables source
  rw [← withinLimits_iff hcache.fits] at hfits
  rw [← withinLimits_iff hempty.fits]
  obtain ⟨hlength, hbytes⟩ :=
    estimatedTotal_le_of_subset (h.nodup_with_new hempty) (h.treeEntries_subset hcache)
  exact ⟨le_trans hlength hfits.length_le, le_trans hbytes hfits.bytes_le⟩

/-- One step of the sequence agrees with validation alone exactly when the root
finds room. -/
theorem step_agrees_iff {cache : ManifestValidationCache}
    (hcache : CacheInv blake3 tables source [] cache) (root : Option ManifestRef)
    (summary : ManifestSummary) :
    accepted (validateManifestCached blake3 tables source root summary cache).1 =
        accepted (validateManifest blake3 tables source root summary) ↔
      ∀ reference, root = some reference →
        FindsRoom blake3 tables source cache reference summary := by
  rw [Bool.eq_iff_iff, accepted_iff, accepted_iff]
  cases root with
  | none =>
      have hsame : (validateManifestCached blake3 tables source none summary cache).1 =
          validateManifest blake3 tables source none summary := by
        simp only [validateManifest, validateManifestCached]
        split <;> rfl
      simp [hsame]
  | some reference =>
      simp only [validateManifest, validateManifestCached_eq_ok hcache,
        validateManifestCached_eq_ok cacheInv_empty, Option.some.injEq, forall_eq']
      constructor
      · intro hagree range added hverified hsummary hempty
        obtain ⟨range', added', hverified', -, hfits⟩ :=
          hagree.mpr ⟨range, added, hverified, hsummary, hempty⟩
        obtain ⟨-, rfl, rfl⟩ := hverified.unique hverified'
        exact hfits
      · intro hroom
        constructor
        · rintro ⟨range, added, hverified, hsummary, hfits⟩
          exact ⟨range, added, hverified, hsummary, hverified.fits_empty hcache hfits⟩
        · rintro ⟨range, added, hverified, hsummary, hempty⟩
          exact ⟨range, added, hverified, hsummary,
            hroom range added hverified hsummary hempty⟩

theorem validateSequence_agrees_from {snapshots : List SnapshotManifest}
    {cache : ManifestValidationCache} (hcache : CacheInv blake3 tables source [] cache) :
    validateSequence blake3 tables source snapshots cache =
        validateAlone blake3 tables source snapshots ↔
      EachFindsRoom blake3 tables source snapshots cache := by
  induction snapshots generalizing cache with
  | nil => simp [validateSequence, validateAlone, EachFindsRoom]
  | cons snapshot rest ih =>
      obtain ⟨root, summary⟩ := snapshot
      have hafter := (validateManifestCached_sound hcache root summary).1.reset
      rw [EachFindsRoom, ← step_agrees_iff hcache, ← ih hafter, validateSequence,
        validateAlone, List.map_cons, List.cons.injEq]
      rfl

/-- A sequence of snapshots validated with one shared cache gives the results of
validating each alone exactly when every valid root that fits an empty cache
finds room for its new chunks beside those cached before it. -/
theorem validateSequence_agrees_iff (snapshots : List SnapshotManifest) :
    validateSequence blake3 tables source snapshots .empty =
        validateAlone blake3 tables source snapshots ↔
      EachFindsRoom blake3 tables source snapshots .empty :=
  validateSequence_agrees_from cacheInv_empty

end Hash

/-! A sequence that disagrees: snapshots of one long path each, which fill the
cache without reaching the limit at which it is reset. -/

namespace Sample

def longSnapshot (index : Nat) : SnapshotManifest :=
  (some (longRef (130000 + index)), totals [longKeyed (130000 + index)])

def longSnapshots : Nat → Nat → List SnapshotManifest
  | _, 0 => []
  | index, count + 1 => longSnapshot index :: longSnapshots (index + 1) count

/-- The cache after the first snapshots. -/
def cacheAfter : Nat → ManifestValidationCache
  | 0 => .empty
  | count + 1 => (cacheAfter count).insert (longRef (130000 + count))
      (longInfo (130000 + count))

theorem len_cacheAfter (count : Nat) : (cacheAfter count).len = count := by
  induction count with
  | zero => rfl
  | succ count ih =>
      simpa [cacheAfter, ManifestValidationCache.len, ManifestValidationCache.insert]
        using ih

theorem bytes_cacheAfter (count : Nat) :
    (cacheAfter count).estimatedHeapBytes + count = count * 260191 + count * count := by
  induction count with
  | zero => rfl
  | succ count ih =>
      have hstep : (cacheAfter (count + 1)).estimatedHeapBytes =
          (cacheAfter count).estimatedHeapBytes + (191 + 2 * (130000 + count)) := by
        rw [← estimatedBytes_longInfo]
        rfl
      rw [hstep]
      ring_nf at ih ⊢
      omega

theorem mem_cacheAfter {count : Nat} {reference : ManifestRef}
    (h : reference ∈ (cacheAfter count).validatedReferences) :
    ∃ index < count, reference = longRef (130000 + index) := by
  induction count with
  | zero => simp [cacheAfter, ManifestValidationCache.empty,
      ManifestValidationCache.validatedReferences] at h
  | succ count ih =>
      rcases ManifestValidationCache.mem_insert_references.mp h with heq | hmem
      · exact ⟨count, Nat.lt_succ_self count, heq⟩
      · obtain ⟨index, hindex, heq⟩ := ih hmem
        exact ⟨index, Nat.lt_succ_of_lt hindex, heq⟩

theorem longRef_notMem_cacheAfter {count : Nat} (hcount : count ≤ 257) :
    longRef (130000 + count) ∉ (cacheAfter count).validatedReferences := by
  intro hmem
  obtain ⟨index, hindex, heq⟩ := mem_cacheAfter hmem
  have hmax : maxExactPathBytes = 131072 := rfl
  have hsame := longRef_injective (by omega) (by omega) heq
  omega

/-- Below 257 snapshots each one is accepted and the cache is kept. -/
theorem validate_cacheAfter {count : Nat} (hcount : count < 257) :
    validateManifestCached lengthHash tables longSource (longSnapshot count).1
        (longSnapshot count).2 (cacheAfter count) = (.ok (), cacheAfter (count + 1)) ∧
      resetValidationCache (cacheAfter (count + 1)) = cacheAfter (count + 1) := by
  have hmax : maxExactPathBytes = 131072 := rfl
  have hchunks : maxManifestValidationChunks = 100000 := rfl
  have hlimit : maxManifestValidationCacheBytes = 67108864 := rfl
  have hbytes := bytes_cacheAfter count
  have hnext := bytes_cacheAfter (count + 1)
  have hlen := len_cacheAfter count
  have hsquare : count * count ≤ 256 * count := Nat.mul_le_mul_right _ (by omega)
  have hsquare' : (count + 1) * (count + 1) ≤ 257 * (count + 1) :=
    Nat.mul_le_mul_right _ (by omega)
  constructor
  · exact validate_longPath (by omega) (by omega) (longRef_notMem_cacheAfter (by omega))
      (by omega) (by omega)
  · rw [resetValidationCache, if_neg]
    rw [len_cacheAfter, maxRebuildValidationCacheChunks, maxRebuildValidationCacheBytes]
    omega

theorem cacheAfter_good {count : Nat} (hcount : count ≤ 257) :
    CacheInv lengthHash tables longSource [] (cacheAfter count) := by
  induction count with
  | zero => exact cacheInv_empty
  | succ count ih =>
      have hstep := (validate_cacheAfter (show count < 257 by omega)).1
      have hafter := (validateManifestCached_sound (ih (by omega)) (longSnapshot count).1
        (longSnapshot count).2).1
      rwa [hstep] at hafter

theorem verified_longPath {length : Nat} (hlength : 8 ≤ length)
    (hlimit : 7 + length ≤ maxExactPathBytes) :
    Verified lengthHash tables longSource (maxManifestDepth + 1) (longRef length)
      (rangeInfo (maxManifestDepth + 1) [longKeyed length]) [longKeyed length]
      [(longRef length, longLeafBytes length)] where
  valid := validRange_single hlength hlimit
  fit := totalsFit_single length hlimit
  canonical := canonical_longPath hlimit maxManifestDepth
  holds := by
    intro chunk hchunk
    rw [List.mem_singleton.mp hchunk, sourceTable_eq_some]
    exact longSource_longRef (by omega)
  info_eq := rfl

theorem validate_alone {index : Nat} (hindex : index ≤ 257) :
    validateManifest lengthHash tables longSource (longSnapshot index).1
      (longSnapshot index).2 = .ok () := by
  have hmax : maxExactPathBytes = 131072 := rfl
  have hlimit : maxManifestValidationCacheBytes = 67108864 := rfl
  have hfresh : longRef (130000 + index) ∉
      ManifestValidationCache.empty.validatedReferences := List.not_mem_nil
  have hbytes : ManifestValidationCache.empty.estimatedHeapBytes = 0 := rfl
  exact congrArg Prod.fst (validate_longPath (show 8 ≤ 130000 + index by omega) (by omega)
    hfresh (by decide) (by omega))

/-- The 258th snapshot is valid but does not fit any more. -/
theorem rejected_cacheAfter {count : Nat} (hcount : count = 257) :
    (validateManifestCached lengthHash tables longSource (longSnapshot count).1
      (longSnapshot count).2 (cacheAfter count)).1 ≠ .ok () := by
  intro haccepted
  have hmax : maxExactPathBytes = 131072 := rfl
  have hlimit : maxManifestValidationCacheBytes = 67108864 := rfl
  obtain ⟨range, added, hverified, -, -, hbytes⟩ :=
    (validateManifestCached_eq_ok (cacheAfter_good (by omega)) _ _).mp haccepted
  obtain ⟨-, rfl, rfl⟩ := hverified.unique
    (verified_longPath (show 8 ≤ 130000 + count by omega) (by omega))
  have hfresh := longRef_notMem_cacheAfter (show count ≤ 257 by omega)
  have htree : treeEntries [longKeyed (130000 + count)]
      [(longRef (130000 + count), longLeafBytes (130000 + count))] =
      [(longRef (130000 + count), longInfo (130000 + count))] := by
    rw [treeEntries, radixRanges, if_pos (rangeIsLeaf_single _), List.map_singleton,
      List.map_singleton, rangeInfo_single]
    rfl
  have hnew : newEntries (cacheAfter count) [longKeyed (130000 + count)]
      [(longRef (130000 + count), longLeafBytes (130000 + count))] =
      [(longRef (130000 + count), longInfo (130000 + count))] := by
    rw [newEntries, htree, List.filter_eq_self]
    intro entry hentry
    rw [List.mem_singleton.mp hentry]
    exact decide_eq_true hfresh
  have htotal := bytes_cacheAfter count
  have hsquare : count * count = 66049 := by rw [hcount]
  rw [hnew, estimatedTotal, List.map_singleton, List.sum_singleton,
    estimatedBytes_longInfo] at hbytes
  omega

end Sample

/-- 258 snapshots, each valid alone, of which the shared cache rejects the last. -/
theorem validateSequence_rejects_valid :
    validateSequence Sample.lengthHash Sample.tables Sample.longSource
        (Sample.longSnapshots 0 258) .empty ≠
      validateAlone Sample.lengthHash Sample.tables Sample.longSource
        (Sample.longSnapshots 0 258) := by
  have hmax : maxExactPathBytes = 131072 := rfl
  suffices hrest : ∀ count index, index + count = 257 →
      validateSequence Sample.lengthHash Sample.tables Sample.longSource
          (Sample.longSnapshots index (count + 1)) (Sample.cacheAfter index) ≠
        validateAlone Sample.lengthHash Sample.tables Sample.longSource
          (Sample.longSnapshots index (count + 1)) from hrest 257 0 rfl
  intro count
  induction count with
  | zero =>
      intro index hindex hsame
      rw [Sample.longSnapshots, validateSequence, validateAlone, List.map_cons,
        List.cons.injEq] at hsame
      have hboth : accepted (validateManifestCached Sample.lengthHash Sample.tables
          Sample.longSource (Sample.longSnapshot index).1 (Sample.longSnapshot index).2
          (Sample.cacheAfter index)).1 = true := by
        rw [hsame.1, accepted_iff]
        exact Sample.validate_alone (by omega)
      exact Sample.rejected_cacheAfter (by omega) (accepted_iff.mp hboth)
  | succ count ih =>
      intro index hindex hsame
      obtain ⟨hstep, hreset⟩ := Sample.validate_cacheAfter (show index < 257 by omega)
      rw [Sample.longSnapshots, validateSequence, validateAlone, List.map_cons,
        List.cons.injEq, hstep, hreset] at hsame
      exact ih (index + 1) (by omega) hsame.2

end CheckPo
