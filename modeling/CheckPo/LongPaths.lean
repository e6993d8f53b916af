/-
A family of long tracked paths.  An entry whose path is longer than the leaf
target is a leaf of its own, so few such entries already fill a validation
cache; a chain of them nests one node in the other.
-/
import CheckPo.ManifestComplete

namespace CheckPo

namespace Sample

def assets : List Char := ['A', 's', 's', 'e', 't', 's']

def longPath (length : Nat) : String :=
  String.ofList (assets ++ '/' :: List.replicate length 'a')

/-- The bytes of `assets/` and the letters after it. -/
def longKey (length : Nat) : Bytes :=
  [97, 115, 115, 101, 116, 115, 47] ++ List.replicate length 97

/-- A stand-in for BLAKE3 that tells chunks of different lengths apart. -/
def lengthHash (bytes : Bytes) : Digest32 :=
  ⟨toBigEndian 32 bytes.length, length_toBigEndian 32 _⟩

def longKeyed (length : Nat) : KeyedEntry :=
  ⟨longKey length, entry (longPath length)⟩

theorem flatMap_replicate_encode (length : Nat) :
    (List.replicate length 'a').flatMap String.utf8EncodeChar =
      List.replicate length 97 := by
  induction length with
  | zero => rfl
  | succ length ih =>
      rw [List.replicate_succ, List.flatMap_cons, ih]
      rfl

@[simp] theorem length_utf8_longPath (length : Nat) :
    (utf8 (longPath length)).length = 7 + length := by
  rw [longPath, utf8_ofList, List.flatMap_append, List.flatMap_cons,
    flatMap_replicate_encode, List.length_append, List.length_append,
    List.length_replicate, show (assets.flatMap String.utf8EncodeChar).length = 6 from rfl,
    show (String.utf8EncodeChar '/').length = 1 from rfl]
  omega

@[simp] theorem length_longKey (length : Nat) : (longKey length).length = 7 + length := by
  simp [longKey]
  omega

/-- A long segment of one letter is a portable file name. -/
theorem checkSegment_replicate (input : String) {length : Nat} (hlength : 8 ≤ length) :
    checkSegment input (List.replicate length 'a') = .ok () := by
  obtain ⟨more, rfl⟩ : ∃ more, length = more + 8 := ⟨length - 8, by omega⟩
  have hlast : (List.replicate (more + 8) 'a').getLast? = some 'a' := by
    rw [List.getLast?_replicate]
    simp
  have hforbidden : (List.replicate (more + 8) 'a').any isWindowsForbiddenCharacter =
      false := by
    rw [List.any_eq_false]
    intro character hcharacter
    rw [List.eq_of_mem_replicate hcharacter]
    decide
  have hupper : ((List.replicate (more + 8) 'a').takeWhile (· ≠ '.')).map asciiUpper =
      List.replicate (more + 8) 'A' := by
    rw [List.takeWhile_eq_self_iff.mpr, List.map_replicate]
    · rfl
    · intro character hcharacter
      rw [List.eq_of_mem_replicate hcharacter]
      decide
  have hreserved : isWindowsReservedName (List.replicate (more + 8) 'a') = false := by
    simp only [isWindowsReservedName, hupper]
    simp [List.replicate_succ]
  simp only [checkSegment, hlast, hforbidden, hreserved]
  simp [List.replicate_succ]

theorem splitOn_longPath (length : Nat) :
    (assets ++ '/' :: List.replicate length 'a').splitOn '/' =
      [assets, List.replicate length 'a'] := by
  have hnone : ∀ character ∈ List.replicate length 'a', (character == '/') = false := by
    intro character hcharacter
    rw [List.eq_of_mem_replicate hcharacter]
    decide
  have hassets : ∀ character ∈ assets, (character == '/') = false := by
    intro character hcharacter
    rw [beq_eq_false_iff_ne]
    rintro rfl
    exact absurd hcharacter (by decide +kernel)
  rw [List.splitOn, List.splitOnP_append_cons_of_forall_mem hassets '/' (beq_self_eq_true _),
    List.splitOnP_eq_singleton hnone]

theorem contains_longPath {length : Nat} (character : Char)
    (hassets : character ∉ assets) (hslash : character ≠ '/') (hletter : character ≠ 'a') :
    (assets ++ '/' :: List.replicate length 'a').contains character = false := by
  rw [List.contains_eq_mem, decide_eq_false_iff_not, List.mem_append, List.mem_cons,
    List.mem_replicate]
  tauto

theorem checkTrackedPath_longPath {length : Nat} (hlength : 8 ≤ length) :
    checkTrackedPath (longPath length) = .ok () := by
  have hlist : (longPath length).toList = assets ++ '/' :: List.replicate length 'a' := by
    rw [longPath, String.toList_ofList]
  have hassets : checkSegment (longPath length) assets = .ok () := by
    have hlast : ¬ (assets.getLast? = some ' ' ∨ assets.getLast? = some '.') := by
      decide +kernel
    have hforbidden : assets.any isWindowsForbiddenCharacter = false := by
      decide +kernel
    have hreserved : isWindowsReservedName assets = false := by
      decide +kernel
    simp only [checkSegment, hforbidden, hreserved, if_neg hlast]
    rfl
  have hscope : (["Assets", "Packages", "ProjectSettings"].all fun root =>
      some assets != some root.toList) = false := by
    decide +kernel
  have hbackslash := @contains_longPath length '\\' (by decide +kernel)
    (by decide +kernel) (by decide +kernel)
  have hcolon := @contains_longPath length ':' (by decide +kernel) (by decide +kernel)
    (by decide +kernel)
  have hhead : ¬ (assets ++ '/' :: List.replicate length 'a').head? = some '/' := by
    rw [assets, List.cons_append, List.head?_cons]
    decide +kernel
  simp only [checkTrackedPath, hlist, splitOn_longPath, hbackslash, hcolon, if_neg hhead,
    List.head?_cons, hscope]
  have hsegments : [assets, List.replicate length 'a'].forM
      (checkSegment (longPath length)) = .ok () := by
    change (do checkSegment (longPath length) assets
               checkSegment (longPath length) (List.replicate length 'a')
               pure ()) = _
    rw [hassets, checkSegment_replicate _ hlength]
    rfl
  rw [hsegments]
  simp

theorem lowerChar_tables {character : Char} (hmapped : ¬ ('A' ≤ character ∧ character ≤ 'Z')) :
    lowerChar tables character = .ok [character] := by
  simp only [lowerChar, tables, if_neg hmapped]
  rfl

theorem lowerChars_longPath (length : Nat) :
    lowerChars tables (longPath length) =
      .ok (String.ofList (['a', 's', 's', 'e', 't', 's', '/'] ++
        List.replicate length 'a')) := by
  have hroot : assets.mapM (lowerChar tables) =
      .ok [['a'], ['s'], ['s'], ['e'], ['t'], ['s']] := by
    decide +kernel
  have hslash : lowerChar tables '/' = .ok ['/'] := lowerChar_tables (by decide +kernel)
  have hletters : (List.replicate length 'a').mapM (lowerChar tables) =
      .ok ((List.replicate length 'a').map fun character => [character]) := by
    refine mapM_ok_eq_map fun character hcharacter => lowerChar_tables ?_
    rw [List.eq_of_mem_replicate hcharacter]
    decide +kernel
  rw [lowerChars, longPath, String.toList_ofList, List.mapM_append, List.mapM_cons, hroot,
    hslash, hletters]
  simp only [except_bind_ok]
  change Except.ok _ = _
  congr 2
  simp

theorem portablePathKeyV1_longPath {length : Nat} (hlength : 8 ≤ length)
    (hlimit : 7 + length ≤ maxExactPathBytes) :
    portablePathKeyV1 tables (longPath length) = .ok (longKey length) := by
  have hkey : utf8 (String.ofList (['a', 's', 's', 'e', 't', 's', '/'] ++
      List.replicate length 'a')) = longKey length := by
    rw [utf8_ofList, List.flatMap_append, flatMap_replicate_encode, longKey]
    rfl
  have hnfc : tables.nfc = id := rfl
  simp only [portablePathKeyV1, length_utf8_longPath, checkTrackedPath_longPath hlength,
    hnfc, id, lowerChars_longPath, except_bind_ok, hkey, length_longKey,
    if_neg (Nat.not_lt.mpr hlimit)]
  rfl

theorem keyedEntry_longPath {length : Nat} (hlength : 8 ≤ length)
    (hlimit : 7 + length ≤ maxExactPathBytes) :
    keyedEntry tables (longKeyed length).entry = .ok (longKeyed length) :=
  keyedEntry_eq_ok.mpr ⟨portablePathKeyV1_longPath hlength hlimit, rfl⟩

/-! One entry alone. -/

theorem commonPrefixLen_append (left right : Bytes) :
    commonPrefixLen left (left ++ right) = left.length := by
  induction left with
  | nil => simp [commonPrefixLen]
  | cons head tail ih =>
      have hcons : commonPrefixLen (head :: tail) (head :: tail ++ right) =
          commonPrefixLen tail (tail ++ right) + 1 := by
        simp [commonPrefixLen]
      rw [hcons, ih, List.length_cons]

theorem longKey_append (length more : Nat) :
    longKey (length + more) = longKey length ++ List.replicate more 97 := by
  rw [longKey, longKey, List.append_assoc, List.replicate_append_replicate]

theorem commonPrefixLen_longKey (length more : Nat) :
    commonPrefixLen (longKey length) (longKey (length + more)) = 7 + length := by
  rw [longKey_append, commonPrefixLen_append, length_longKey]

theorem rangePrefix_single (length : Nat) :
    rangePrefix [longKeyed length] = longKey length := by
  have hlen := commonPrefixLen_longKey length 0
  rw [Nat.add_zero] at hlen
  rw [rangePrefix, rangePrefixLen]
  change (longKey length).take (commonPrefixLen (longKey length) (longKey length)) = _
  rw [hlen, ← length_longKey, List.take_length]

/-- The bytes of the leaf of one long path. -/
def leafSize (length : Nat) : Nat := 120 + 2 * length

theorem leafLen_single (length : Nat) :
    leafLen (longKey length) [longKeyed length] = leafSize length := by
  have hpath : totalPathBytes [longKeyed length] = 7 + length := by
    rw [totalPathBytes_cons, totalPathBytes_nil]
    exact length_utf8_longPath length
  rw [leafLen, hpath, length_longKey, List.length_singleton, leafSize]
  omega

theorem totalsFit_single (length : Nat) (hlimit : 7 + length ≤ maxExactPathBytes) :
    TotalsFit [longKeyed length] := by
  rw [totalsFit_singleton]
  change (utf8 (longPath length)).length < 2 ^ 64
  rw [length_utf8_longPath]
  exact lt_of_le_of_lt hlimit (by decide)

theorem encodeLeaf_longPath {length : Nat} (hlimit : 7 + length ≤ maxExactPathBytes) :
    ∃ stored, encodeLeaf ⟨rangePrefix [longKeyed length],
      [longKeyed length].map KeyedEntry.entry⟩ = .ok stored ∧
      stored.length = leafSize length := by
  have hmax : maxExactPathBytes = 131072 := rfl
  obtain ⟨stored, hstored⟩ := @encodeLeaf_ok (rangePrefix [longKeyed length])
    [longKeyed length] (by
      rw [rangePrefix_single, length_longKey]
      exact hlimit) (show 1 ≤ maxLeafEntries by decide) (totalsFit_single length hlimit) (by
      intro keyed hkeyed
      rw [List.mem_singleton.mp hkeyed]
      exact ⟨by rw [show (longKeyed length).entry.exactPath = longPath length from rfl,
        length_utf8_longPath]; exact hlimit,
        show (0 : UInt32) < 1000000000 by decide⟩) (by
      rw [rangePrefix_single, leafLen_single, leafSize,
        show maxManifestChunkBytes = 1048576 from rfl]
      omega)
  refine ⟨stored, hstored, ?_⟩
  rw [length_encodeLeaf hstored, rangePrefix_single, leafLen_single]

/-- The stored leaf of one long path. -/
def longLeafBytes (length : Nat) : Bytes :=
  (encodeLeaf ⟨rangePrefix [longKeyed length],
    [longKeyed length].map KeyedEntry.entry⟩).toOption.getD []

def longRef (length : Nat) : ManifestRef :=
  ⟨.leaf, ⟨toBigEndian 32 (leafHashDomain.length + leafSize length),
    length_toBigEndian 32 _⟩⟩

theorem encodeLeaf_longLeafBytes {length : Nat} (hlimit : 7 + length ≤ maxExactPathBytes) :
    encodeLeaf ⟨rangePrefix [longKeyed length],
        [longKeyed length].map KeyedEntry.entry⟩ = .ok (longLeafBytes length) ∧
      leafRef lengthHash (longLeafBytes length) = longRef length := by
  obtain ⟨stored, hstored, hlength⟩ := encodeLeaf_longPath hlimit
  have hbytes : longLeafBytes length = stored := by
    rw [longLeafBytes, hstored]
    rfl
  rw [hbytes]
  refine ⟨hstored, ?_⟩
  rw [leafRef, longRef, domainHash, lengthHash]
  simp only [List.length_append, hlength]

theorem rangeIsLeaf_single (length : Nat) :
    RangeIsLeaf manifestLeafTargetBytes [longKeyed length] := Or.inr rfl

theorem canonical_longPath {length : Nat} (hlimit : 7 + length ≤ maxExactPathBytes)
    (levels : Nat) :
    Canonical lengthHash manifestLeafTargetBytes (levels + 1) [longKeyed length]
      (longRef length) [(longRef length, longLeafBytes length)] := by
  obtain ⟨hencode, href⟩ := encodeLeaf_longLeafBytes hlimit
  refine (canonical_leaf (rangeIsLeaf_single length)).mpr ⟨by simp, ?_,
    longLeafBytes length, hencode, href.symm, rfl⟩
  have hmax : maxExactPathBytes = 131072 := rfl
  rw [rangePrefix_single, leafLen_single, leafSize]
  omega

theorem validRange_single {length : Nat} (hlength : 8 ≤ length)
    (hlimit : 7 + length ≤ maxExactPathBytes) : ValidRange tables [longKeyed length] where
  keyed := by
    intro keyed hkeyed
    rw [List.mem_singleton.mp hkeyed]
    exact keyedEntry_longPath hlength hlimit
  ordered := .singleton _

theorem longRef_injective {length other : Nat} (hlength : length ≤ maxExactPathBytes)
    (hother : other ≤ maxExactPathBytes) (h : longRef length = longRef other) :
    length = other := by
  have hmax : maxExactPathBytes = 131072 := rfl
  have hdomain : leafHashDomain.length ≤ 1000 := by decide +kernel
  have hbound : (2 : Nat) ^ 24 ≤ 256 ^ 32 := by decide +kernel
  have hbytes : toBigEndian 32 (leafHashDomain.length + leafSize length) =
      toBigEndian 32 (leafHashDomain.length + leafSize other) := by
    simpa [longRef] using h
  have hvalue := congrArg ofBigEndian hbytes
  simp only [leafSize] at hvalue
  rw [ofBigEndian_toBigEndian_of_lt (by omega), ofBigEndian_toBigEndian_of_lt (by omega)]
    at hvalue
  omega

/-- What validation reports of one long path. -/
def longInfo (length : Nat) : ValidationInfo :=
  ⟨totals [longKeyed length], longKey length, longKey length, 0⟩

theorem rangeInfo_single (levels length : Nat) :
    rangeInfo (levels + 1) [longKeyed length] = longInfo length := by
  rw [rangeInfo, radixHeight, if_pos (rangeIsLeaf_single length)]
  rfl

theorem estimatedBytes_longInfo (length : Nat) :
    (longInfo length).estimatedBytes = 191 + 2 * length := by
  simp only [ValidationInfo.estimatedBytes, longInfo, length_longKey]
  omega

/-- A store that holds the leaf of every long path. -/
def longSource : ManifestChunkSource := fun reference =>
  .ok (longLeafBytes
    ((ofBigEndian reference.id.bytes - leafHashDomain.length - 120) / 2))

theorem longSource_longRef {length : Nat} (hlength : length ≤ maxExactPathBytes) :
    longSource (longRef length) = .ok (longLeafBytes length) := by
  have hmax : maxExactPathBytes = 131072 := rfl
  have hdomain : leafHashDomain.length ≤ 1000 := by decide +kernel
  have hbound : (2 : Nat) ^ 24 ≤ 256 ^ 32 := by decide +kernel
  have hid : ofBigEndian (longRef length).id.bytes =
      leafHashDomain.length + leafSize length := by
    refine ofBigEndian_toBigEndian_of_lt ?_
    rw [leafSize]
    omega
  have hback : (leafHashDomain.length + leafSize length - leafHashDomain.length - 120) / 2 =
      length := by
    rw [leafSize]
    omega
  rw [longSource, hid, hback]

/-- Validating one long path adds its entry to a cache with room for it. -/
theorem validate_longPath {length : Nat} (hlength : 8 ≤ length)
    (hlimit : 7 + length ≤ maxExactPathBytes) {cache : ManifestValidationCache}
    (hfresh : longRef length ∉ cache.validatedReferences)
    (hlen : cache.len < maxManifestValidationChunks)
    (hbytes : cache.estimatedHeapBytes + (191 + 2 * length) ≤
      maxManifestValidationCacheBytes) :
    validateManifestCached lengthHash tables longSource (some (longRef length))
        (totals [longKeyed length]) cache =
      (.ok (), cache.insert (longRef length) (longInfo length)) := by
  obtain ⟨hencode, href⟩ := encodeLeaf_longLeafBytes hlimit
  have hload : loadChunk lengthHash longSource (longRef length) =
      .ok (.leaf ⟨rangePrefix [longKeyed length],
        [longKeyed length].map KeyedEntry.entry⟩ (longLeafBytes length)) := by
    have hsource := longSource_longRef (show length ≤ maxExactPathBytes by omega)
    rw [← href] at hsource ⊢
    exact loadChunk_leaf hsource hencode
  have hleaf : validateLeaf tables ⟨rangePrefix [longKeyed length],
      [longKeyed length].map KeyedEntry.entry⟩ (longLeafBytes length) =
      .ok (longInfo length) :=
    validateLeaf_eq_ok.mpr ⟨hencode, [longKeyed length], validRange_single hlength hlimit,
      totalsFit_single length hlimit, by simp, rangeIsLeaf_single length, rfl, rfl⟩
  have htriple : Triple (fun state : ValidationState => state = ⟨[], cache⟩)
      (validateSubtree lengthHash tables longSource (maxManifestDepth + 1)
        (longRef length))
      (fun info state => info = longInfo length ∧
        state.cache = cache.insert (longRef length) (longInfo length))
      (fun _ => False) := by
    rw [validateSubtree]
    refine Triple.bind (visitChunk_triple (longRef length)
      (fun state => state.cache = cache) (fun state hstate _ _ => by rw [hstate])
      fun state hstate hfull => ?_) fun _ => ?_
    · rw [hstate] at hfull
      simp [maxManifestValidationChunks] at hfull
    refine Triple.get_bind fun state hstate => ?_
    rw [hstate, ManifestValidationCache.get_eq_none_iff.mpr hfresh, hload]
    refine Triple.bind_ok ?_
    simp only [hleaf]
    refine Triple.bind_ok ?_
    refine Triple.bind (cacheChunk_triple (longRef length) (longInfo length)
      (fun state => state.cache = cache.insert (longRef length) (longInfo length))
      (fun after heq hmem => ?_) (fun after heq _ _ _ => ?_)
      fun after heq _ hfull => ?_) fun _ => Triple.pure fun _ hstate => ⟨rfl, hstate⟩
    · rw [heq, hstate] at hmem
      exact absurd hmem hfresh
    · rw [heq, hstate]
    · rw [heq, hstate, estimatedBytes_longInfo] at hfull
      omega
  obtain ⟨info, after, hrun, rfl, hafter⟩ := htriple.returns rfl
  simp only [validateManifestCached, hrun, hafter, longInfo, ne_eq, not_true_eq_false,
    if_false]

end Sample

end CheckPo
