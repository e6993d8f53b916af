/-
A chain of long paths, each key the beginning of the next.  Its manifest nests
one node in the other, every one of which the reader caches with its two long
keys: the writer accepts the chain, the reader does not.
-/
import CheckPo.SnapshotRoundTrip

namespace CheckPo

namespace Sample

/-- Entries whose keys have growing lengths, each the beginning of the next. -/
def longRange : Nat → Nat → List KeyedEntry
  | _, 0 => []
  | length, count + 1 => longKeyed length :: longRange (length + 1) count

theorem mem_longRange {length count : Nat} {keyed : KeyedEntry} :
    keyed ∈ longRange length count ↔
      ∃ index, length ≤ index ∧ index < length + count ∧ keyed = longKeyed index := by
  induction count generalizing length with
  | zero =>
      simp only [longRange, List.not_mem_nil, false_iff, not_exists, not_and]
      intro index hle hlt
      omega
  | succ count ih =>
      rw [longRange, List.mem_cons, ih]
      constructor
      · rintro (rfl | ⟨index, hle, hlt, rfl⟩)
        · exact ⟨length, le_refl _, by omega, rfl⟩
        · exact ⟨index, by omega, by omega, rfl⟩
      · rintro ⟨index, hle, hlt, rfl⟩
        rcases Nat.eq_or_lt_of_le hle with rfl | hgt
        · exact Or.inl rfl
        · exact Or.inr ⟨index, hgt, by omega, rfl⟩

@[simp] theorem length_longRange (length count : Nat) :
    (longRange length count).length = count := by
  induction count generalizing length with
  | zero => rfl
  | succ count ih => rw [longRange, List.length_cons, ih]

theorem getLast?_longRange (length count : Nat) :
    (longRange length (count + 1)).getLast? = some (longKeyed (length + count)) := by
  induction count generalizing length with
  | zero => rfl
  | succ count ih =>
      rw [longRange, longRange, List.getLast?_cons_cons, ← longRange, ih]
      rw [Nat.add_right_comm, Nat.add_assoc]

theorem firstKey_longRange (length count : Nat) :
    firstKey (longRange length (count + 1)) = longKey length := rfl

theorem lastKey_longRange (length count : Nat) :
    lastKey (longRange length (count + 1)) = longKey (length + count) := by
  rw [lastKey, getLast?_longRange]
  rfl

theorem rangePrefixLen_longRange (length count : Nat) :
    rangePrefixLen (longRange length (count + 1)) = 7 + length := by
  rw [rangePrefixLen, firstKey_longRange, lastKey_longRange, commonPrefixLen_longKey]

theorem rangePrefix_longRange (length count : Nat) :
    rangePrefix (longRange length (count + 1)) = longKey length := by
  rw [rangePrefix, rangePrefixLen_longRange, firstKey_longRange, ← length_longKey,
    List.take_length]

/-- Past the end of a key the edge is the terminator, before it a letter. -/
theorem edgeAt_longKey (length more : Nat) :
    edgeAt (longKey (length + more)) (7 + length) = if more = 0 then 0 else 97 := by
  rw [edgeAt, longKey_append, ← length_longKey, List.getD_append_right _ _ _ _ (le_refl _),
    Nat.sub_self]
  cases more with
  | zero => rfl
  | succ more => rfl

theorem rangeChildren_longRange (length count : Nat) :
    rangeChildren (longRange length (count + 2)) =
      [[longKeyed length], longRange (length + 1) (count + 1)] := by
  have hfirst : sameEdge (7 + length) (longKeyed length) (longKeyed (length + 1)) = false := by
    have hnext := edgeAt_longKey length 1
    have hself := edgeAt_longKey length 0
    rw [Nat.add_zero] at hself
    simp only [sameEdge, longKeyed, hnext, hself]
    decide
  have hrest : ∀ keyed ∈ longRange (length + 1 + 1) count,
      sameEdge (7 + length) (longKeyed (length + 1)) keyed = true := by
    intro keyed hkeyed
    obtain ⟨index, hle, -, rfl⟩ := mem_longRange.mp hkeyed
    have hnext := edgeAt_longKey length 1
    have hindex := edgeAt_longKey length (index - length)
    rw [Nat.add_sub_of_le (by omega), if_neg (by omega)] at hindex
    simp only [sameEdge, longKeyed, hnext, hindex]
    decide
  rw [rangeChildren, rangePrefixLen_longRange, longRange, longRange, splitChildren_cons,
    List.takeWhile_cons_of_neg (by simp [hfirst]),
    List.dropWhile_cons_of_neg (by simp [hfirst]), splitChildren_cons,
    List.takeWhile_eq_self_iff.mpr hrest, List.dropWhile_eq_nil_iff.mpr hrest, splitChildren]

theorem totalPathBytes_longRange (length count : Nat) :
    totalPathBytes (longRange length count) ≤ count * (7 + length + count) ∧
      count * (7 + length) ≤ totalPathBytes (longRange length count) := by
  induction count generalizing length with
  | zero => simp [longRange, totalPathBytes_nil]
  | succ count ih =>
      obtain ⟨hupper, hlower⟩ := ih (length + 1)
      rw [longRange, totalPathBytes_cons, show (longKeyed length).entry.exactPath =
        longPath length from rfl, length_utf8_longPath]
      constructor
      · nlinarith
      · nlinarith

theorem totalSize_longRange (length count : Nat) :
    totalSize (longRange length count) = 3 * count := by
  induction count generalizing length with
  | zero => rfl
  | succ count ih =>
      rw [longRange, totalSize_cons, ih]
      change 3 + 3 * count = _
      omega

/-- A chain within the path limit: it is short, and its paths are long. -/
structure ChainFits (length count : Nat) : Prop where
  long : 40000 ≤ length
  limit : 7 + length + count ≤ maxExactPathBytes

theorem ChainFits.tail {length count : Nat} (h : ChainFits length (count + 1)) :
    ChainFits (length + 1) count :=
  ⟨by have := h.long; omega, by have := h.limit; omega⟩

theorem ChainFits.totalsFit {length count : Nat} (h : ChainFits length count) :
    TotalsFit (longRange length count) := by
  have hmax : maxExactPathBytes = 131072 := rfl
  have hlimit := h.limit
  have hbytes := (totalPathBytes_longRange length count).1
  have hproduct : count * (7 + length + count) ≤ 131072 * 131072 :=
    Nat.mul_le_mul (by omega) (by omega)
  rw [TotalsFit, length_longRange, totalSize_longRange]
  omega

theorem ChainFits.not_leaf {length count : Nat} (h : ChainFits length (count + 2)) :
    ¬ RangeIsLeaf manifestLeafTargetBytes (longRange length (count + 2)) := by
  have htarget : manifestLeafTargetBytes = 32768 := rfl
  have hbytes := (totalPathBytes_longRange length (count + 2)).2
  have hlong := h.long
  have hproduct : 1 * 40000 ≤ (count + 2) * (7 + length) :=
    Nat.mul_le_mul (by omega) (by omega)
  rw [RangeIsLeaf, length_longRange, leafLen, length_longRange]
  omega

theorem ChainFits.leafLen_lt {length count : Nat} (h : ChainFits length (count + 1)) :
    leafLen (rangePrefix (longRange length (count + 1))) (longRange length (count + 1)) <
      2 ^ 64 := by
  have hmax : maxExactPathBytes = 131072 := rfl
  have hlimit := h.limit
  have hbytes := (totalPathBytes_longRange length (count + 1)).1
  have hproduct : (count + 1) * (7 + length + (count + 1)) ≤ 131072 * 131072 :=
    Nat.mul_le_mul (by omega) (by omega)
  rw [leafLen, rangePrefix_longRange, length_longRange, length_longKey]
  omega

theorem bytes_lt_append (left : Bytes) {rest : Bytes} (hrest : rest ≠ []) :
    left < left ++ rest := by
  induction left with
  | nil =>
      obtain ⟨head, tail, rfl⟩ := List.exists_cons_of_ne_nil hrest
      exact List.nil_lt_cons head tail
  | cons head tail ih =>
      rw [List.cons_append, List.cons_lt_cons_iff]
      exact Or.inr ⟨rfl, ih⟩

theorem longKeyed_follow (length : Nat) :
    KeysFollow (longKeyed length) (longKeyed (length + 1)) := by
  have happend := longKey_append length 1
  constructor
  · change longKey length < longKey (length + 1)
    rw [happend]
    exact bytes_lt_append _ (by simp)
  · change isPathAncestor (longKey length) (longKey (length + 1)) = false
    have hnext : (longKey (length + 1))[(longKey length).length]? = some 97 := by
      rw [happend, List.getElem?_append_right (le_refl _), Nat.sub_self]
      rfl
    rw [isPathAncestor, hnext]
    simp

theorem keysOrdered_longRange (length count : Nat) :
    KeysOrdered (longRange length count) := by
  induction count generalizing length with
  | zero => exact .nil
  | succ count ih =>
      cases count with
      | zero => exact .singleton _
      | succ count => exact .cons_cons (longKeyed_follow length) (ih (length + 1))

theorem ChainFits.validRange {length count : Nat} (h : ChainFits length count) :
    ValidRange tables (longRange length count) where
  keyed := by
    intro keyed hkeyed
    obtain ⟨index, hle, hlt, rfl⟩ := mem_longRange.mp hkeyed
    have hlong := h.long
    have hlimit := h.limit
    exact keyedEntry_longPath (by omega) (by omega)
  ordered := keysOrdered_longRange length count

/-! The tree of a chain. -/

/-- The bytes of a node over a chain, and its reference. -/
def longNodeSize (length : Nat) : Nat := 173 + length

def longNodeRef (length : Nat) : ManifestRef :=
  ⟨.node, ⟨toBigEndian 32 (nodeHashDomain.length + longNodeSize length),
    length_toBigEndian 32 _⟩⟩

theorem longNodeRef_injective {length other : Nat} (hlength : length ≤ maxExactPathBytes)
    (hother : other ≤ maxExactPathBytes) (h : longNodeRef length = longNodeRef other) :
    length = other := by
  have hmax : maxExactPathBytes = 131072 := rfl
  have hdomain : nodeHashDomain.length ≤ 1000 := by decide +kernel
  have hbound : (2 : Nat) ^ 24 ≤ 256 ^ 32 := by decide +kernel
  have hbytes : toBigEndian 32 (nodeHashDomain.length + longNodeSize length) =
      toBigEndian 32 (nodeHashDomain.length + longNodeSize other) := by
    simpa [longNodeRef] using h
  have hvalue := congrArg ofBigEndian hbytes
  simp only [longNodeSize] at hvalue
  rw [ofBigEndian_toBigEndian_of_lt (by omega), ofBigEndian_toBigEndian_of_lt (by omega)]
    at hvalue
  omega

/-- The node over a chain of at least two entries, whatever its second child is. -/
theorem encodeNode_longRange {length count : Nat} (h : ChainFits length (count + 2))
    {rest : ManifestRef} (hrest : rest.kind ≠ .root) :
    ∃ stored, encodeNode ⟨rangePrefix (longRange length (count + 2)),
        rangeManifestChildren (longRange length (count + 2)) [longRef length, rest]⟩ =
          .ok stored ∧ nodeRef lengthHash stored = longNodeRef length := by
  have hmax : maxExactPathBytes = 131072 := rfl
  have hlimit := h.limit
  have hchildren := rangeChildren_longRange length count
  have hmanifest : rangeManifestChildren (longRange length (count + 2))
      [longRef length, rest] =
      [⟨rangeEdge (rangePrefixLen (longRange length (count + 2))) [longKeyed length],
          longRef length, totals [longKeyed length]⟩,
        ⟨rangeEdge (rangePrefixLen (longRange length (count + 2)))
          (longRange (length + 1) (count + 1)), rest,
          totals (longRange (length + 1) (count + 1))⟩] := by
    rw [rangeManifestChildren, hchildren]
    rfl
  have hsize : nodeLen (rangePrefix (longRange length (count + 2)))
      (rangeManifestChildren (longRange length (count + 2)) [longRef length, rest]) =
      longNodeSize length := by
    rw [nodeLen, rangePrefix_longRange, hmanifest, length_longKey, longNodeSize]
    simp only [List.length_cons, List.length_nil]
    omega
  obtain ⟨stored, hstored⟩ := @encodeNode_ok (rangePrefix (longRange length (count + 2)))
    (rangeManifestChildren (longRange length (count + 2)) [longRef length, rest])
    [[longKeyed length], longRange (length + 1) (count + 1)]
    (by rw [rangePrefix_longRange, length_longKey, maxPrefixBytes]; omega)
    (by rw [hmanifest]; exact show 2 ≤ 256 by decide)
    (by
      rw [hmanifest]
      exact .cons ⟨totalsFit_single length (by omega), rfl⟩
        (.cons ⟨h.tail.totalsFit, rfl⟩ .nil))
    (by rw [← hchildren, rangeChildren_flatten]; exact h.totalsFit)
    (by
      rw [hmanifest]
      simp [longRef, hrest])
    (by rw [hsize, longNodeSize, show maxManifestChunkBytes = 1048576 from rfl]; omega)
  refine ⟨stored, hstored, ?_⟩
  have hlength := length_encodeNode hstored
  rw [hsize] at hlength
  rw [nodeRef, longNodeRef, domainHash, lengthHash]
  simp only [List.length_append, hlength]

/-- The references in the tree of a chain. -/
def ChainRef (length count : Nat) (reference : ManifestRef) : Prop :=
  ∃ index, length ≤ index ∧ index < length + count ∧
    (reference = longRef index ∨ reference = longNodeRef index)

/-- A chain has a canonical tree, whose chunks have different references. -/
theorem canonical_longRange {length count : Nat} (h : ChainFits length (count + 1)) :
    ∃ root added, Canonical lengthHash manifestLeafTargetBytes (count + 1)
        (longRange length (count + 1)) root added ∧ root.kind ≠ .root ∧
      (∀ reference ∈ added.map Prod.fst, ChainRef length (count + 1) reference) ∧
      Chunks.NodupKeys added := by
  have hlimit := h.limit
  induction count generalizing length with
  | zero =>
      refine ⟨_, _, canonical_longPath (by omega) 0, by simp [longRef], ?_,
        by simp [Chunks.NodupKeys]⟩
      intro reference hreference
      exact ⟨length, le_refl _, by omega, Or.inl (List.mem_singleton.mp hreference)⟩
  | succ count ih =>
      have hmax : maxExactPathBytes = 131072 := rfl
      obtain ⟨rest, below, hcanonical, hkind, hrefs, hnodup⟩ := ih h.tail (by omega)
      obtain ⟨stored, hstored, href⟩ := encodeNode_longRange h hkind
      have hleaf := canonical_longPath (show 7 + length ≤ maxExactPathBytes by omega) count
      refine ⟨longNodeRef length, [(longRef length, longLeafBytes length)] ++ below ++
        [(longNodeRef length, stored)], ?_, by simp [longNodeRef], ?_, ?_⟩
      · refine (canonical_node h.not_leaf).mpr ⟨by simp [longRange], h.leafLen_lt, ?_,
          [(longRef length, [(longRef length, longLeafBytes length)]), (rest, below)], ?_,
          stored, hstored, href.symm, by simp⟩
        · rw [rangeChildren_longRange]
          rfl
        · rw [rangeChildren_longRange]
          exact .cons hleaf (.cons hcanonical .nil)
      · intro reference hreference
        simp only [List.map_append, List.map_cons, List.map_nil, List.mem_append,
          List.mem_singleton] at hreference
        rcases hreference with (rfl | hreference) | rfl
        · exact ⟨length, le_refl _, by omega, Or.inl rfl⟩
        · obtain ⟨index, hle, hlt, hindex⟩ := hrefs reference hreference
          exact ⟨index, by omega, by omega, hindex⟩
        · exact ⟨length, le_refl _, by omega, Or.inr rfl⟩
      · have hleafNew : longRef length ∉ below.map Prod.fst := by
          intro hmem
          obtain ⟨index, hle, hlt, heq | heq⟩ := hrefs _ hmem
          · have := longRef_injective (by omega) (by omega) heq
            omega
          · cases congrArg ManifestRef.kind heq
        have hnodeNew : longNodeRef length ∉ below.map Prod.fst := by
          intro hmem
          obtain ⟨index, hle, hlt, heq | heq⟩ := hrefs _ hmem
          · cases congrArg ManifestRef.kind heq
          · have := longNodeRef_injective (by omega) (by omega) heq
            omega
        have hkinds : longRef length ≠ longNodeRef length :=
          fun heq => by cases congrArg ManifestRef.kind heq
        simp only [Chunks.NodupKeys, List.map_append, List.map_cons, List.map_nil,
          List.cons_append, List.nil_append, List.nodup_cons, List.mem_append,
          List.mem_singleton, not_or]
        refine ⟨⟨hleafNew, hkinds⟩, List.nodup_append'.mpr ⟨hnodup, List.nodup_singleton _, ?_⟩⟩
        simpa [List.disjoint_singleton] using hnodeNew

/-- The reader's estimate of the chain: each entry's leaf, and a node over each tail
of at least two, keeps two long keys. -/
theorem estimate_longRange {length count levels : Nat} (h : ChainFits length (count + 1))
    (hlevels : count < levels) :
    (2 * count + 1) * (191 + 2 * length) ≤
      ((radixRanges manifestLeafTargetBytes levels (longRange length (count + 1))).map
        fun part => 33 + 80 + (firstKey part).length + (lastKey part).length + 64).sum := by
  induction count generalizing length levels with
  | zero =>
      obtain ⟨levels, rfl⟩ : ∃ m, levels = m + 1 := ⟨levels - 1, by omega⟩
      rw [radixRanges, if_pos (show RangeIsLeaf _ _ from Or.inr rfl), List.map_singleton,
        List.sum_singleton, firstKey_longRange, lastKey_longRange, length_longKey, length_longKey]
      omega
  | succ count ih =>
      obtain ⟨levels, rfl⟩ : ∃ m, levels = m + 1 := ⟨levels - 1, by omega⟩
      obtain ⟨levels, rfl⟩ : ∃ m, levels = m + 1 := ⟨levels - 1, by omega⟩
      have hrest := ih h.tail (show count < levels + 1 by omega)
      have hsingle : radixRanges manifestLeafTargetBytes (levels + 1) [longKeyed length] =
          [longRange length 1] := by
        rw [radixRanges, if_pos (rangeIsLeaf_single length)]
        rfl
      rw [radixRanges, if_neg h.not_leaf, rangeChildren_longRange, List.flatMap_cons,
        List.flatMap_cons, List.flatMap_nil, hsingle]
      simp only [List.map_append, List.sum_append, List.map_singleton, List.sum_singleton,
        List.append_nil, firstKey_longRange, lastKey_longRange, length_longKey]
      nlinarith

/-! The snapshot of a chain. -/

def longTracked (extra : Nat) : TrackedUnityFilePath :=
  ⟨longPath (extra + 8), checkTrackedPath_longPath (by omega)⟩

def chainPaths : Nat → Nat → List TrackedUnityFilePath
  | _, 0 => []
  | extra, count + 1 => longTracked extra :: chainPaths (extra + 1) count

theorem chainPaths_entries (extra count : Nat) :
    (chainPaths extra count).map (fun path => entry path.text) =
      (longRange (extra + 8) count).map KeyedEntry.entry := by
  induction count generalizing extra with
  | zero => rfl
  | succ count ih =>
      rw [chainPaths, longRange, List.map_cons, List.map_cons, ih (extra + 1),
        Nat.add_right_comm]
      rfl

theorem mem_chainPaths {extra count : Nat} {path : TrackedUnityFilePath}
    (h : path ∈ chainPaths extra count) : ∃ index, extra ≤ index ∧ path = longTracked index := by
  induction count generalizing extra with
  | zero => cases h
  | succ count ih =>
      rw [chainPaths, List.mem_cons] at h
      rcases h with rfl | h
      · exact ⟨extra, le_refl _, rfl⟩
      · obtain ⟨index, hle, rfl⟩ := ih h
        exact ⟨index, by omega, rfl⟩

theorem utf8_longPath_lt {length more : Nat} (hmore : 0 < more) :
    utf8 (longPath length) < utf8 (longPath (length + more)) := by
  have hutf8 : ∀ count, utf8 (longPath count) =
      (assets.flatMap String.utf8EncodeChar ++ String.utf8EncodeChar '/') ++
        List.replicate count 97 := by
    intro count
    rw [longPath, utf8_ofList, List.flatMap_append, List.flatMap_cons,
      flatMap_replicate_encode, List.append_assoc]
  rw [hutf8, hutf8, ← List.replicate_append_replicate, ← List.append_assoc]
  refine bytes_lt_append _ ?_
  rw [ne_eq, List.replicate_eq_nil_iff]
  omega

theorem chainPaths_ordered (extra count : Nat) :
    (chainPaths extra count).Pairwise fun left right =>
      utf8 left.text < utf8 right.text := by
  induction count generalizing extra with
  | zero => exact .nil
  | succ count ih =>
      refine .cons (fun path hpath => ?_) (ih (extra + 1))
      obtain ⟨index, hle, rfl⟩ := mem_chainPaths hpath
      have hlt := @utf8_longPath_lt (extra + 8) _ (show 0 < index - extra by omega)
      rwa [show extra + 8 + (index - extra) = index + 8 by omega] at hlt

theorem portablePaths_get_eq_none {paths : PortablePaths} {key : Bytes}
    (h : ∀ item ∈ paths, item.1 ≠ key) : paths.get key = none := by
  rw [PortablePaths.get, Option.map_eq_none_iff, List.find?_eq_none]
  simpa using h

/-- Each path of the chain has a key longer than those read before it. -/
theorem chainPaths_portable {extra count : Nat} {paths : PortablePaths}
    (hlimit : 15 + extra + count ≤ maxExactPathBytes)
    (hpaths : ∀ item ∈ paths, ∃ index < extra + 8, item.1 = longKey index) :
    ∃ portable, ((chainPaths extra count).map file).foldlM
        (validateSnapshotEntry chrono tables validationId) paths = .ok portable ∧
      ∀ item ∈ portable, ∃ index, item.1 = longKey index := by
  induction count generalizing extra paths with
  | zero =>
      refine ⟨paths, rfl, fun item hitem => ?_⟩
      obtain ⟨index, -, hindex⟩ := hpaths item hitem
      exact ⟨index, hindex⟩
  | succ count ih =>
      have hfresh : paths.get (longKey (extra + 8)) = none := by
        refine portablePaths_get_eq_none fun item hitem heq => ?_
        obtain ⟨index, hlt, hindex⟩ := hpaths item hitem
        have hlength := congrArg List.length (hindex.symm.trans heq)
        rw [length_longKey, length_longKey] at hlength
        omega
      have hstep : validateSnapshotEntry chrono tables validationId paths
          (file (longTracked extra)) =
            .ok (paths.insert (longKey (extra + 8)) (longTracked extra)) :=
        validateSnapshotEntry_eq_ok.mpr ⟨longKey (extra + 8),
          portablePathKeyV1_longPath (by omega) (by omega), by rw [hfresh]; simp,
          ⟨_, parse_epoch _ _⟩, rfl, rfl⟩
      obtain ⟨portable, hrest, hportable⟩ := @ih (extra + 1)
        (paths.insert (longKey (extra + 8)) (longTracked extra)) (by omega) (by
          intro item hitem
          rw [PortablePaths.insert, List.mem_cons, List.mem_filter] at hitem
          rcases hitem with rfl | ⟨hitem, -⟩
          · exact ⟨extra + 8, by omega, rfl⟩
          · obtain ⟨index, hlt, hindex⟩ := hpaths item hitem
            exact ⟨index, by omega, hindex⟩)
      refine ⟨portable, ?_, hportable⟩
      rw [chainPaths, List.map_cons, List.foldlM_cons, hstep]
      exact hrest

/-- The only slash of a long key ends its first segment. -/
theorem longKey_slash {length index : Nat} (h : (longKey length)[index]? = some 47) :
    index ≤ 6 := by
  by_contra hlarge
  rw [longKey, List.getElem?_append_right (by simp; omega), List.getElem?_replicate] at h
  split at h <;> simp at h

theorem ancestor_longKey {paths : PortablePaths} {key : Bytes}
    (hpaths : ∀ item ∈ paths, ∃ index, item.1 = longKey index)
    (hkey : ∃ index, key = longKey index) : paths.ancestor key = none := by
  obtain ⟨length, rfl⟩ := hkey
  rw [PortablePaths.ancestor, List.findSome?_eq_none_iff]
  intro index _
  by_cases hslash : (longKey length)[index]? = some 47
  · rw [if_pos hslash]
    refine portablePaths_get_eq_none fun item hitem heq => ?_
    obtain ⟨other, hother⟩ := hpaths item hitem
    have hlength := congrArg List.length (hother.symm.trans heq)
    have hsix := longKey_slash hslash
    rw [length_longKey, List.length_take] at hlength
    omega
  · rw [if_neg hslash]

/-- The snapshot of 130 files whose longest path has 130,136 bytes. -/
def chainSnapshot : SnapshotFile := snapshot ((chainPaths 129992 (129 + 1)).map file)

theorem chainFits : ChainFits (129992 + 8) (129 + 1) :=
  ⟨by decide, by decide⟩

theorem prepare_chainSnapshot :
    ∃ prepared, prepareSnapshot chrono tables lengthHash chainSnapshot = .ok prepared := by
  obtain ⟨root, added, hcanonical, hkind, -, hnodup⟩ := canonical_longRange chainFits
  obtain ⟨built, hbuilt, hmanifest⟩ := buildManifest_of_canonical (List.Perm.refl _)
    chainFits.validRange chainFits.totalsFit (hcanonical.mono (show 130 ≤ maxManifestDepth + 1
      by decide)) hnodup.holds
  obtain ⟨portable, hportable, hkeys⟩ := @chainPaths_portable 129992 (129 + 1) [] (by decide)
    (by simp)
  have hbuiltChain : buildManifest lengthHash tables
      ((chainPaths 129992 (129 + 1)).map fun path => entry path.text) = .ok built := by
    rw [chainPaths_entries]
    exact hbuilt
  refine prepare_snapshot (chainPaths 129992 (129 + 1)) portable (chainPaths_ordered _ _) hportable
    (fun item hitem => ancestor_longKey hkeys (hkeys item hitem)) hbuiltChain ?_ ?_
  · rw [hmanifest.root_eq]
    rintro reference ⟨rfl⟩
    exact hkind
  · rw [hmanifest.root_eq]
    simp

/-- The range of a chain's files. -/
theorem manifestRange_chain {extra count : Nat} (h : ChainFits (extra + 8) count) :
    manifestRange chrono tables (snapshot ((chainPaths extra count).map file)) =
      longRange (extra + 8) count := by
  have hentries : (snapshot ((chainPaths extra count).map file)).files.mapM
      (snapshotEntryToManifest chrono) =
      .ok ((longRange (extra + 8) count).map KeyedEntry.entry) := by
    rw [← chainPaths_entries, snapshot, mapM_eq_ok_iff, List.forall₂_map_left_iff,
      List.forall₂_map_right_iff, List.forall₂_same]
    exact fun path _ => snapshotEntryToManifest_file path
  simp only [manifestRange, hentries, mapM_keyedEntry_eq_ok.mpr ⟨rfl, h.validRange.keyed⟩]
  exact sortByKey_eq (List.Perm.refl _) (keysOrdered_longRange _ _)

theorem chainSnapshot_not_loadable : ¬ LoadableSnapshot chrono tables chainSnapshot := by
  intro hloadable
  have hfits := hloadable.fits.2
  rw [chainSnapshot, manifestRange_chain chainFits] at hfits
  have hbound := (estimate_longRange chainFits (by decide)).trans hfits
  have hlimit : maxManifestValidationCacheBytes = 67108864 := rfl
  omega

end Sample

/-- A prepared and stored snapshot that does not load: the nodes over its long paths
take more of the validation cache than one root may. -/
theorem storedSnapshot_not_loaded :
    ∃ prepared, prepareSnapshot Sample.chrono Sample.tables Sample.lengthHash
        Sample.chainSnapshot = .ok prepared ∧
      ∀ before after, SnapshotRepository.storePreparedSnapshot Sample.lengthHash before
          prepared = .ok after →
        ¬ Loads Sample.chrono Sample.tables Sample.lengthHash after prepared.snapshotId
          (.ok (Sample.chainSnapshot.canonical Sample.chrono)) := by
  obtain ⟨prepared, hprepared⟩ := Sample.prepare_chainSnapshot
  refine ⟨prepared, hprepared, fun before after hstore hloads => ?_⟩
  obtain ⟨after', hstore', hstored⟩ := storePreparedSnapshot_ok hprepared before
  cases hstore.symm.trans hstore'
  exact Sample.chainSnapshot_not_loadable
    (loadable_of_loads Sample.chrono_lawful hprepared hstored hloads)

end CheckPo
