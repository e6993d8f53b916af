/-
The radix split of a sorted list with distinct keys.  Keys have no byte zero,
so the edge of a key that ends at the common prefix is no other key's edge: the
split has at least two children, each of which keeps a longer prefix or is the
one entry whose key is the prefix.
-/
import CheckPo.ManifestReading

namespace CheckPo

/-! No key has a byte zero. -/

theorem zero_not_mem_utf8EncodeChar {character : Char} (h : character ≠ '\x00') :
    (0 : UInt8) ∉ String.utf8EncodeChar character := by
  have hzero : character.val.toNat ≠ 0 := by
    intro hzero
    apply h
    apply Char.ext
    exact UInt32.toNat_inj.mp hzero
  have hbyte : ∀ value : Nat, value < 256 → value ≠ 0 → (0 : UInt8) ≠ UInt8.ofNat value := by
    intro value hlt hne heq
    have hvalue := congrArg UInt8.toNat heq
    rw [UInt8.toNat_ofNat_of_lt' hlt] at hvalue
    exact hne hvalue.symm
  rw [String.utf8EncodeChar]
  split
  · simp only [List.mem_singleton]
    exact hbyte _ (by omega) hzero
  · split
    · simp only [List.mem_cons, List.not_mem_nil, or_false, not_or]
      exact ⟨hbyte _ (by omega) (by omega), hbyte _ (by omega) (by omega)⟩
    · split
      · simp only [List.mem_cons, List.not_mem_nil, or_false, not_or]
        exact ⟨hbyte _ (by omega) (by omega), hbyte _ (by omega) (by omega),
          hbyte _ (by omega) (by omega)⟩
      · simp only [List.mem_cons, List.not_mem_nil, or_false, not_or]
        exact ⟨hbyte _ (by omega) (by omega), hbyte _ (by omega) (by omega),
          hbyte _ (by omega) (by omega), hbyte _ (by omega) (by omega)⟩

theorem zero_not_mem_utf8 {text : String} (h : '\x00' ∉ text.toList) : 0 ∉ utf8 text := by
  intro hmem
  rw [← String.ofList_toList (s := text), utf8_ofList, List.mem_flatMap] at hmem
  rcases hmem with ⟨character, hcharacter, hbyte⟩
  refine zero_not_mem_utf8EncodeChar ?_ hbyte
  rintro rfl
  exact h hcharacter

theorem mem_splitOn_of_mem {α : Type} [DecidableEq α] {separator value : α} {values : List α}
    (h : value ∈ values) (hne : value ≠ separator) :
    ∃ part ∈ values.splitOn separator, value ∈ part := by
  have hwhole : [separator].intercalate (values.splitOn separator) = values :=
    List.intercalate_splitOn separator
  rw [← hwhole] at h
  generalize values.splitOn separator = parts at h
  induction parts with
  | nil => simp at h
  | cons first rest ih =>
      cases rest with
      | nil =>
          rw [List.intercalate_singleton] at h
          exact ⟨first, List.mem_cons_self, h⟩
      | cons second rest =>
          rw [List.intercalate_cons_cons] at h
          simp only [List.mem_append, List.mem_singleton] at h
          rcases h with (hfirst | hseparator) | hrest
          · exact ⟨first, List.mem_cons_self, hfirst⟩
          · exact absurd hseparator hne
          · rcases ih hrest with ⟨part, hpart, hmem⟩
            exact ⟨part, List.mem_cons_of_mem _ hpart, hmem⟩

/-- The path checks refuse every control character. -/
theorem null_not_mem_of_tracked {path : String} (h : checkTrackedPath path = .ok ()) :
    '\x00' ∉ path.toList := by
  intro hnull
  simp only [checkTrackedPath, except_guard_eq_ok] at h
  have hsegments := h.2.2.2.2.2.2
  rcases mem_splitOn_of_mem hnull (show '\x00' ≠ '/' by decide) with ⟨segment, hsegment, hmem⟩
  have hcheck := forM_eq_ok_iff.mp hsegments segment hsegment
  simp only [checkSegment, except_guard_eq_ok] at hcheck
  have hallowed := hcheck.2.2.2.1
  apply hallowed
  rw [List.any_eq_true]
  exact ⟨'\x00', hmem, by decide⟩

theorem null_not_mem_lowerChar {tables : UnicodeTables} {character : Char} {lowered : List Char}
    (hne : character ≠ '\x00') (h : lowerChar tables character = .ok lowered) :
    '\x00' ∉ lowered := by
  rw [lowerChar] at h
  split at h
  · cases h
    simpa using hne.symm
  · rw [mapM_eq_ok_iff] at h
    intro hnull
    rcases forall₂_mem_right h hnull with ⟨scalar, hscalar, hfrom⟩
    have hnonzero : scalar ≠ 0 := by
      simpa using List.mem_takeWhile_imp hscalar
    rw [orError_eq_ok, charFromU32] at hfrom
    split at hfrom
    · have hvalue := congrArg (fun value => value.map Char.toNat) hfrom
      exact hnonzero (by simpa [Char.toNat] using hvalue)
    · cases hfrom

/-- Normalization makes no null character of others. -/
def NfcKeepsNull (tables : UnicodeTables) : Prop :=
  ∀ text : String, '\x00' ∉ text.toList → '\x00' ∉ (tables.nfc text).toList

theorem zero_not_mem_key {tables : UnicodeTables} (hnfc : NfcKeepsNull tables) {path : String}
    {key : Bytes} (h : portablePathKeyV1 tables path = .ok key) : 0 ∉ key := by
  have htracked := portablePathKeyV1_tracked h
  simp only [portablePathKeyV1, htracked, except_guard_eq_ok, except_bind_eq_ok,
    except_pure_eq_ok] at h
  rcases h with ⟨-, lowered, hlowered, -, rfl⟩
  apply zero_not_mem_utf8
  apply hnfc
  simp only [lowerChars, except_bind_eq_ok, except_pure_eq_ok] at hlowered
  rcases hlowered with ⟨parts, hparts, rfl⟩
  rw [String.toList_ofList, List.mem_flatten]
  rintro ⟨part, hpart, hnull⟩
  rcases forall₂_mem_right (mapM_eq_ok_iff.mp hparts) hpart with ⟨character, hcharacter, hlower⟩
  refine null_not_mem_lowerChar ?_ hlower hnull
  rintro rfl
  exact hnfc path (null_not_mem_of_tracked htracked) hcharacter

/-! Edges after a common prefix. -/

/-- Different keys part with different edges: the end of a key is no byte of another. -/
theorem edgeAt_commonPrefixLen_ne {left right : Bytes} (hleft : 0 ∉ left) (hright : 0 ∉ right)
    (hne : left ≠ right) :
    edgeAt left (commonPrefixLen left right) ≠ edgeAt right (commonPrefixLen left right) := by
  induction left generalizing right with
  | nil =>
      cases right with
      | nil => exact absurd rfl hne
      | cons head tail =>
          have hhead : 0 ≠ head := fun heq => hright (heq ▸ List.mem_cons_self)
          simpa [edgeAt, commonPrefixLen] using hhead
  | cons head tail ih =>
      rw [List.mem_cons, not_or] at hleft
      cases right with
      | nil => simpa [edgeAt, commonPrefixLen] using Ne.symm hleft.1
      | cons head' tail' =>
          rw [List.mem_cons, not_or] at hright
          by_cases heq : head = head'
          · subst heq
            have hlength : commonPrefixLen (head :: tail) (head :: tail') =
                commonPrefixLen tail tail' + 1 := by
              simp [commonPrefixLen]
            rw [hlength]
            exact ih hleft.2 hright.2 fun htail => hne (by rw [htail])
          · have hlength : commonPrefixLen (head :: tail) (head' :: tail') = 0 := by
              simp [commonPrefixLen, heq]
            rw [hlength]
            exact heq

/-- The common prefix length is the length of the longest common prefix. -/
theorem length_le_commonPrefixLen {pre left right : Bytes} (hleft : pre <+: left)
    (hright : pre <+: right) : pre.length ≤ commonPrefixLen left right := by
  induction pre generalizing left right with
  | nil => exact Nat.zero_le _
  | cons byte pre ih =>
      rcases hleft with ⟨leftTail, rfl⟩
      rcases hright with ⟨rightTail, rfl⟩
      have hlength : commonPrefixLen (byte :: pre ++ leftTail) (byte :: pre ++ rightTail) =
          commonPrefixLen (pre ++ leftTail) (pre ++ rightTail) + 1 := by
        simp [commonPrefixLen]
      rw [hlength, List.length_cons]
      exact Nat.succ_le_succ (ih (List.prefix_append _ _) (List.prefix_append _ _))

/-- A prefix and an edge that is no end is a longer prefix. -/
theorem prefix_concat_of_edgeAt {pre key : Bytes} {edge : UInt8} (hpre : pre <+: key)
    (hedge : edgeAt key pre.length = edge) (hne : edge ≠ 0) : pre ++ [edge] <+: key := by
  rcases hpre with ⟨tail, rfl⟩
  cases tail with
  | nil =>
      rw [List.append_nil, edgeAt, List.getD_eq_default _ _ (le_refl _)] at hedge
      exact absurd hedge.symm hne
  | cons head tail =>
      rw [edgeAt, List.getD_append_right _ _ _ _ (le_refl _), Nat.sub_self] at hedge
      have hhead : head = edge := hedge
      have happend : pre ++ [edge] ++ tail = pre ++ edge :: tail := by simp
      rw [hhead, ← happend]
      exact List.prefix_append (pre ++ [edge]) tail

theorem eq_of_edgeAt_zero {pre key : Bytes} (hpre : pre <+: key) (hkey : 0 ∉ key)
    (hedge : edgeAt key pre.length = 0) : key = pre := by
  rcases hpre with ⟨tail, rfl⟩
  cases tail with
  | nil => exact List.append_nil pre
  | cons head tail =>
      rw [edgeAt, List.getD_append_right _ _ _ _ (le_refl _), Nat.sub_self] at hedge
      have hhead : head = 0 := hedge
      exact absurd (List.mem_append_right pre (hhead ▸ List.mem_cons_self)) hkey

/-! The split of a sorted list. -/

/-- Entries sorted by distinct keys, none of which has a byte zero. -/
structure SortedKeys (range : List KeyedEntry) : Prop where
  ordered : range.Pairwise fun left right => left.key < right.key
  nonzero : ∀ keyed ∈ range, 0 ∉ keyed.key

namespace SortedKeys

variable {range child : List KeyedEntry}

theorem part (h : SortedKeys range) (hchild : child <:+: range) : SortedKeys child :=
  ⟨h.ordered.sublist hchild.sublist, fun keyed hkeyed => h.nonzero keyed (hchild.subset hkeyed)⟩

theorem firstKey_lt_lastKey (h : SortedKeys range) (hne : range ≠ []) (hone : range.length ≠ 1) :
    firstKey range < lastKey range := by
  rcases List.exists_cons_of_ne_nil hne with ⟨first, rest, rfl⟩
  have hrest : rest ≠ [] := fun hnil => hone (by rw [hnil]; rfl)
  have hlast : lastKey (first :: rest) = (rest.getLast hrest).key := by
    rw [lastKey, List.getLast?_cons, List.getLast?_eq_some_getLast hrest]
    rfl
  rw [hlast]
  exact List.rel_of_pairwise_cons h.ordered (List.getLast_mem hrest)

/-- The first and the last key part after the common prefix. -/
theorem ends_edgeAt_ne (h : SortedKeys range) (hne : range ≠ []) (hone : range.length ≠ 1) :
    edgeAt (firstKey range) (rangePrefixLen range) ≠
      edgeAt (lastKey range) (rangePrefixLen range) := by
  rcases firstKey_mem hne with ⟨first, hfirst, hfirstKey⟩
  rcases lastKey_mem hne with ⟨last, hlast, hlastKey⟩
  apply edgeAt_commonPrefixLen_ne
  · exact hfirstKey ▸ h.nonzero first hfirst
  · exact hlastKey ▸ h.nonzero last hlast
  · exact (h.firstKey_lt_lastKey hne hone).ne

/-- A single child would have one edge for both ends. -/
theorem two_le_rangeChildren (h : SortedKeys range) (hne : range ≠ [])
    (hone : range.length ≠ 1) : 2 ≤ (rangeChildren range).length := by
  by_contra hfew
  have hflatten := rangeChildren_flatten range
  rcases hchildren : rangeChildren range with _ | ⟨child, _ | ⟨second, rest⟩⟩
  · rw [hchildren] at hflatten
    exact hne hflatten.symm
  · have huniform : UniformEdge (rangePrefixLen range) (rangeEdge (rangePrefixLen range) child)
        child := splitChildren_uniformEdge (show child ∈ rangeChildren range by simp [hchildren])
    rw [hchildren, List.flatten_singleton] at hflatten
    subst hflatten
    rcases firstKey_mem hne with ⟨first, hfirst, hfirstKey⟩
    rcases lastKey_mem hne with ⟨last, hlast, hlastKey⟩
    apply h.ends_edgeAt_ne hne hone
    rw [← hfirstKey, ← hlastKey, huniform first hfirst, huniform last hlast]
  · rw [hchildren] at hfew
    simp at hfew

theorem length_child_lt (h : SortedKeys range) (hne : range ≠ []) (hone : range.length ≠ 1)
    (hchild : child ∈ rangeChildren range) : child.length < range.length := by
  have htwo := h.two_le_rangeChildren hne hone
  have hempty := rangeChildren_ne_nil range
  have hflatten := congrArg List.length (rangeChildren_flatten range)
  rcases List.append_of_mem hchild with ⟨front, back, hsplit⟩
  rw [hsplit] at htwo hempty hflatten
  have hfront := length_flatten_ge fun part hpart => hempty part (List.mem_append_left _ hpart)
  have hback := length_flatten_ge fun part hpart =>
    hempty part (List.mem_append_right _ (List.mem_cons_of_mem _ hpart))
  simp only [List.flatten_append, List.flatten_cons, List.length_append, List.length_cons] at *
  omega

/-- The prefix of a range is common to its keys and no longer prefix is. -/
theorem prefix_rangePrefix_iff (h : SortedKeys range) (hne : range ≠ []) {pre : Bytes} :
    pre <+: rangePrefix range ↔ ∀ keyed ∈ range, pre <+: keyed.key := by
  constructor
  · intro hpre keyed hkeyed
    exact hpre.trans (rangePrefix_common h.ordered hkeyed)
  · intro hcommon
    rcases firstKey_mem hne with ⟨first, hfirst, hfirstKey⟩
    rcases lastKey_mem hne with ⟨last, hlast, hlastKey⟩
    have hpre : pre <+: firstKey range := hfirstKey ▸ hcommon first hfirst
    have hlength : pre.length ≤ rangePrefixLen range :=
      length_le_commonPrefixLen hpre (hlastKey ▸ hcommon last hlast)
    rw [rangePrefix, List.prefix_take_iff]
    exact ⟨hpre, hlength⟩

theorem prefix_child (h : SortedKeys range) (hchild : child ∈ rangeChildren range) :
    rangePrefix range <+: rangePrefix child := by
  have hwithin := rangeChildren_within hchild
  rw [(h.part hwithin).prefix_rangePrefix_iff (rangeChildren_ne_nil range child hchild)]
  intro keyed hkeyed
  exact rangePrefix_common h.ordered (hwithin.subset hkeyed)

/-- A child keeps a longer prefix, unless it is the entry whose key is the prefix. -/
theorem child_extends (h : SortedKeys range) (hchild : child ∈ rangeChildren range) :
    rangePrefixLen range < rangePrefixLen child ∨
      ∃ keyed, child = [keyed] ∧ keyed.key = rangePrefix range := by
  have hwithin := rangeChildren_within hchild
  have hne := rangeChildren_ne_nil range child hchild
  have hsorted := h.part hwithin
  have huniform : UniformEdge (rangePrefixLen range) (rangeEdge (rangePrefixLen range) child)
      child := splitChildren_uniformEdge hchild
  generalize rangeEdge (rangePrefixLen range) child = edge at huniform
  rw [← length_rangePrefix] at huniform
  by_cases hedge : edge = 0
  · subst hedge
    have hkeys : ∀ keyed ∈ child, keyed.key = rangePrefix range := fun keyed hkeyed =>
      eq_of_edgeAt_zero (rangePrefix_common h.ordered (hwithin.subset hkeyed))
        (hsorted.nonzero keyed hkeyed) (huniform keyed hkeyed)
    rcases hparts : child with _ | ⟨first, _ | ⟨second, rest⟩⟩
    · exact absurd hparts hne
    · exact Or.inr ⟨first, rfl, hkeys first (by simp [hparts])⟩
    · have hordered := hsorted.ordered
      rw [hparts] at hordered
      have hlt : first.key < second.key :=
        List.rel_of_pairwise_cons hordered List.mem_cons_self
      rw [hkeys first (by simp [hparts]), hkeys second (by simp [hparts])] at hlt
      exact absurd hlt (lt_irrefl _)
  · have hlonger : rangePrefix range ++ [edge] <+: rangePrefix child := by
      rw [hsorted.prefix_rangePrefix_iff hne]
      intro keyed hkeyed
      exact prefix_concat_of_edgeAt (rangePrefix_common h.ordered (hwithin.subset hkeyed))
        (huniform keyed hkeyed) hedge
    have hlength := hlonger.length_le
    rw [List.length_append, length_rangePrefix, length_rangePrefix, List.length_singleton]
      at hlength
    exact Or.inl hlength

end SortedKeys

section Build

variable {blake3 : Bytes → Digest32} {prefixes : List ManifestSummary} {target : Nat}

/-- One child is built for each range, with the range's edge and what was built for it. -/
theorem buildChildren_each
    {build : Nat → List KeyedEntry → Chunks → SnapshotV2Result (BuiltRange × Chunks)}
    {prefixLen start : Nat} {ranges : List (List KeyedEntry)} {chunks : Chunks}
    {result : List ManifestChild × Chunks}
    (h : buildChildren build prefixLen start ranges chunks = .ok result) :
    List.Forall₂ (fun range child => child.edge = rangeEdge prefixLen range ∧
      ∃ start chunks built, build start range chunks = .ok built ∧
        child.child = built.1.reference ∧ child.summary = built.1.summary) ranges result.1 := by
  induction ranges generalizing start chunks result with
  | nil =>
      simp only [buildChildren, Except.ok.injEq] at h
      subst h
      exact List.Forall₂.nil
  | cons range ranges ih =>
      simp only [buildChildren, except_bind_eq_ok, except_pure_eq_ok] at h
      rcases h with ⟨built, hbuilt, children, hchildren, rfl⟩
      exact List.Forall₂.cons ⟨rfl, start, chunks, built, hbuilt, rfl, rfl⟩ (ih hchildren)

theorem buildChildren_congr
    {build other : Nat → List KeyedEntry → Chunks → SnapshotV2Result (BuiltRange × Chunks)}
    (prefixLen start : Nat) {ranges : List (List KeyedEntry)} (chunks : Chunks)
    (h : ∀ range ∈ ranges, ∀ start chunks, build start range chunks = other start range chunks) :
    buildChildren build prefixLen start ranges chunks =
      buildChildren other prefixLen start ranges chunks := by
  induction ranges generalizing start chunks with
  | nil => rfl
  | cons range ranges ih =>
      have hrest : ∀ start chunks, buildChildren build prefixLen start ranges chunks =
          buildChildren other prefixLen start ranges chunks := fun start chunks =>
        ih start chunks fun part hpart => h part (List.mem_cons_of_mem _ hpart)
      simp only [buildChildren, h range List.mem_cons_self, hrest]

/-- Each split shortens the ranges, so a range needs no more levels than it has entries. -/
theorem buildRange_levels {range : List KeyedEntry} (h : SortedKeys range) {levels more : Nat}
    (hlevels : range.length < levels) (hmore : range.length < more) (start : Nat)
    (chunks : Chunks) :
    buildRange blake3 prefixes target levels start range chunks =
      buildRange blake3 prefixes target more start range chunks := by
  induction levels generalizing more start range chunks with
  | zero => exact absurd hlevels (Nat.not_lt_zero _)
  | succ levels ih =>
      rcases more with _ | more
      · exact absurd hmore (Nat.not_lt_zero _)
      rcases range with _ | ⟨first, rest⟩
      · rfl
      by_cases hone : (first :: rest).length = 1
      · simp only [buildRange, hone, or_true, if_true]
      · have hchildren : ∀ child ∈ rangeChildren (first :: rest), ∀ start chunks,
            buildRange blake3 prefixes target levels start child chunks =
              buildRange blake3 prefixes target more start child chunks := by
          intro child hchild start chunks
          have hshorter := h.length_child_lt (by simp) hone hchild
          apply ih (h.part (rangeChildren_within hchild))
          · omega
          · omega
        rcases first_last_of_cons first rest with ⟨hfirst, hlast⟩
        have hsplit : splitChildren (commonPrefixLen first.key
            ((first :: rest).getLastD first).key) (first :: rest) =
              rangeChildren (first :: rest) := by
          rw [rangeChildren, rangePrefixLen, hfirst, hlast]
        simp only [buildRange, List.head?_cons, orError, except_bind_ok, hsplit,
          buildChildren_congr _ _ _ hchildren]

/-- The two computations of a leaf's size agree: the summary the writer takes from its
running totals is that of the leaf, and the length computed from it is the leaf's. -/
theorem leafEncodedLen_encodeLeaf {front range back : List KeyedEntry}
    {portablePrefix stored : Bytes}
    (h : encodeLeaf ⟨portablePrefix, range.map KeyedEntry.entry⟩ = .ok stored)
    (hprefixes : summaryPrefixes .zero (front ++ (range ++ back)) = .ok prefixes) :
    ∃ summary, rangeSummary prefixes front.length (front.length + range.length) = .ok summary ∧
      ManifestLeaf.summary ⟨portablePrefix, range.map KeyedEntry.entry⟩ = .ok summary ∧
      leafEncodedLen portablePrefix summary = .ok stored.length := by
  have hfit := (summaryPrefixes_eq_ok TotalsFit.nil).mp (show summaryPrefixes (totals [])
    (front ++ (range ++ back)) = .ok prefixes from hprefixes)
  simp only [List.nil_append] at hfit
  rcases hfit with ⟨hfit, rfl⟩
  have hrange : TotalsFit range := hfit.right.left
  refine ⟨totals range, rangeSummary_eq_totals hfit, leafSummary_eq_ok.mpr ⟨hrange, rfl⟩, ?_⟩
  have hlimit := length_encodeLeaf_le h
  have hmax : maxManifestChunkBytes = 1048576 := rfl
  rw [leafEncodedLen_eq_ok hrange, ← length_encodeLeaf h]
  exact ⟨by omega, rfl⟩

end Build

/-- The split of a range: parts of it in order, at least two, each nonempty and with
a longer prefix unless it is the one entry whose key is the range's prefix. -/
structure RangeSplits (range : List KeyedEntry) : Prop where
  partition : (rangeChildren range).flatten = range
  two : 2 ≤ (rangeChildren range).length
  nonempty : ∀ child ∈ rangeChildren range, child ≠ []
  within : ∀ child ∈ rangeChildren range, rangePrefix range <+: rangePrefix child
  extends_or_end : ∀ child ∈ rangeChildren range,
    rangePrefixLen range < rangePrefixLen child ∨
      ∃ keyed, child = [keyed] ∧ keyed.key = rangePrefix range

theorem SortedKeys.splits {range : List KeyedEntry} (h : SortedKeys range) (hne : range ≠ [])
    (hone : range.length ≠ 1) : RangeSplits range where
  partition := rangeChildren_flatten range
  two := h.two_le_rangeChildren hne hone
  nonempty := rangeChildren_ne_nil range
  within := fun _ hchild => h.prefix_child hchild
  extends_or_end := fun _ hchild => h.child_extends hchild

/-- The node `buildRange` makes of a range it splits: its children are those built for the
parts, one for each, under the edges the parts have after the range's prefix. -/
structure NodeOfSplit (blake3 : Bytes → Digest32) (prefixes : List ManifestSummary)
    (target levels : Nat) (range : List KeyedEntry) (node : ManifestNode) : Prop where
  splits : RangeSplits range
  pathPrefix : node.portablePrefix = rangePrefix range
  two : 2 ≤ node.children.length
  children : List.Forall₂ (fun part child => child.edge = rangeEdge (rangePrefixLen range) part ∧
    ∃ start chunks built,
      buildRange blake3 prefixes target levels start part chunks = .ok built ∧
        child.child = built.1.reference ∧ child.summary = built.1.summary)
    (rangeChildren range) node.children

/-- A range that `buildRange` stores is stored as the leaf of its entries, or as the node
of its split. -/
theorem SortedKeys.buildRange_stored {blake3 : Bytes → Digest32} {prefixes : List ManifestSummary}
    {target levels : Nat} {front range back : List KeyedEntry} (h : SortedKeys range)
    (hne : range ≠ []) {chunks : Chunks} {result : BuiltRange × Chunks}
    (hprefixes : summaryPrefixes .zero (front ++ (range ++ back)) = .ok prefixes)
    (hbuilt : buildRange blake3 prefixes target (levels + 1) front.length range chunks =
      .ok result) :
    if RangeIsLeaf target range then
      ∃ stored, encodeLeaf ⟨rangePrefix range, range.map KeyedEntry.entry⟩ = .ok stored ∧
        result.1.reference = leafRef blake3 stored
    else
      ∃ node stored, NodeOfSplit blake3 prefixes target levels range node ∧
        encodeNode node = .ok stored ∧ result.1.reference = nodeRef blake3 stored := by
  have hfit := (summaryPrefixes_eq_ok TotalsFit.nil).mp (show summaryPrefixes (totals [])
    (front ++ (range ++ back)) = .ok prefixes from hprefixes)
  have hat : RangeAt prefixes front.length range := ⟨front, back, hfit.1, hfit.2.symm, rfl⟩
  have hsteps := ((buildRange_succ hne hat).mp hbuilt).2
  by_cases hleaf : RangeIsLeaf target range
  · rw [if_pos hleaf] at hsteps ⊢
    rcases hsteps with ⟨stored, hstored, inserted, hinsert, rfl⟩
    exact ⟨stored, hstored, (insertChunk_extends (by decide) hinsert).1⟩
  · rw [if_neg hleaf] at hsteps ⊢
    rcases hsteps with ⟨children, hchildren, htwo, stored, hstored, inserted, hinsert, rfl⟩
    have hsplits := h.splits hne fun hone => hleaf (Or.inr hone)
    exact ⟨⟨rangePrefix range, children.1⟩, stored,
      ⟨hsplits, rfl, htwo, buildChildren_each hchildren⟩, hstored,
      (insertChunk_extends (by decide) hinsert).1⟩

/-- What `buildRange` relies on and does, for every sorted list of tracked paths with
distinct keys: the computed size of a leaf is its size, the prefix taken from the ends is
the longest common one, a range that is no leaf splits into smaller ones and is stored as
a node with a child for each, and the result does not depend on the levels left once they
are more than the entries. -/
theorem buildRange_splits {tables : UnicodeTables} (hnfc : NfcKeepsNull tables)
    {range : List KeyedEntry}
    (hkeyed : ∀ keyed ∈ range, keyedEntry tables keyed.entry = .ok keyed)
    (hordered : range.Pairwise fun left right => left.key < right.key) :
    (∀ portablePrefix stored front back prefixes,
      (∀ keyed ∈ range, portablePrefix <+: keyed.key) →
      encodeLeaf ⟨portablePrefix, range.map KeyedEntry.entry⟩ = .ok stored →
      summaryPrefixes .zero (front ++ (range ++ back)) = .ok prefixes →
      ∃ summary, rangeSummary prefixes front.length (front.length + range.length) =
          .ok summary ∧
        ManifestLeaf.summary ⟨portablePrefix, range.map KeyedEntry.entry⟩ = .ok summary ∧
        leafEncodedLen portablePrefix summary = .ok stored.length) ∧
    (range ≠ [] → ∀ portablePrefix, portablePrefix <+: rangePrefix range ↔
      ∀ keyed ∈ range, portablePrefix <+: keyed.key) ∧
    (range ≠ [] → ∀ target, ¬ RangeIsLeaf target range → RangeSplits range ∧
      ∀ build start chunks built, buildChildren build (rangePrefixLen range) start
        (rangeChildren range) chunks = .ok built → 2 ≤ built.1.length) ∧
    (range ≠ [] → ∀ blake3 prefixes target levels front back chunks result,
      summaryPrefixes .zero (front ++ (range ++ back)) = .ok prefixes →
      buildRange blake3 prefixes target (levels + 1) front.length range chunks = .ok result →
      if RangeIsLeaf target range then
        ∃ stored, encodeLeaf ⟨rangePrefix range, range.map KeyedEntry.entry⟩ = .ok stored ∧
          result.1.reference = leafRef blake3 stored
      else
        ∃ node stored, NodeOfSplit blake3 prefixes target levels range node ∧
          encodeNode node = .ok stored ∧ result.1.reference = nodeRef blake3 stored) ∧
    ∀ blake3 prefixes target levels more start chunks, range.length < levels →
      range.length < more →
      buildRange blake3 prefixes target levels start range chunks =
        buildRange blake3 prefixes target more start range chunks := by
  have hsorted : SortedKeys range :=
    ⟨hordered, fun keyed hmem => zero_not_mem_key hnfc (keyedEntry_eq_ok.mp (hkeyed keyed hmem)).1⟩
  refine ⟨?_, fun hne _ => hsorted.prefix_rangePrefix_iff hne, ?_, ?_, ?_⟩
  · intro portablePrefix stored front back prefixes _ hstored hprefixes
    exact leafEncodedLen_encodeLeaf hstored hprefixes
  · intro hne target hleaf
    have hsplits := hsorted.splits hne fun hone => hleaf (Or.inr hone)
    refine ⟨hsplits, ?_⟩
    intro build start chunks built hbuilt
    rw [← (buildChildren_each hbuilt).length_eq]
    exact hsplits.two
  · intro hne blake3 prefixes target levels front back chunks result hprefixes hbuilt
    exact hsorted.buildRange_stored hne hprefixes hbuilt
  · intro blake3 prefixes target levels more start chunks hlevels hmore
    exact buildRange_levels hsorted hlevels hmore start chunks

namespace Sample

theorem nfcKeepsNull : NfcKeepsNull tables := fun _ h => h

end Sample

/-- Two long paths, the first key the beginning of the second. -/
theorem buildRange_splits_pair :
    RangeSplits (Sample.longRange 40000 2) := by
  have hvalid := Sample.pairFits.validRange
  exact ((buildRange_splits Sample.nfcKeepsNull hvalid.keyed hvalid.ordered.pairwise).2.2.1
    (by simp [Sample.longRange]) manifestLeafTargetBytes Sample.pairFits.not_leaf).1

/-- The end of a key is a child of its own, whose prefix is the range's. -/
theorem buildRange_child_not_longer :
    ValidRange Sample.tables (Sample.longRange 40000 2) ∧
      ¬ RangeIsLeaf manifestLeafTargetBytes (Sample.longRange 40000 2) ∧
      ∃ child ∈ rangeChildren (Sample.longRange 40000 2),
        ¬ rangePrefixLen (Sample.longRange 40000 2) < rangePrefixLen child := by
  refine ⟨Sample.pairFits.validRange, Sample.pairFits.not_leaf,
    Sample.longRange 40000 1, ?_, ?_⟩
  · rw [Sample.rangeChildren_longRange]
    exact List.mem_cons_self
  · rw [Sample.rangePrefixLen_longRange, Sample.rangePrefixLen_longRange]
    exact lt_irrefl _

end CheckPo
