/-
The validator's checks of one chunk.  A leaf that passes is the canonical leaf
of a valid range; a node whose children passed is the canonical node over the
concatenation of their ranges.
-/
import CheckPo.ManifestIteration

namespace CheckPo

section Hash

variable {blake3 : Bytes → Digest32} {tables : UnicodeTables}
variable {source : ManifestChunkSource}

/-- What validation reports of a range. -/
def rangeInfo (levels : Nat) (range : List KeyedEntry) : ValidationInfo :=
  ⟨totals range, firstKey range, lastKey range,
    radixHeight manifestLeafTargetBytes levels range⟩

theorem length_encodeLeaf_le {leaf : ManifestLeaf} {stored : Bytes}
    (h : encodeLeaf leaf = .ok stored) : stored.length ≤ maxManifestChunkBytes := by
  obtain ⟨-, -, _, -, _, -, _, -, _, -, henvelope⟩ := encodeLeaf_eq_ok.mp h
  rw [length_envelope henvelope]
  exact (envelope_eq_ok.mp henvelope).1

theorem rangePrefix_cons (first : KeyedEntry) (rest : List KeyedEntry) :
    first.key.take (commonPrefixLen first.key ((first :: rest).getLastD first).key) =
      rangePrefix (first :: rest) := by
  obtain ⟨hfirst, hlast⟩ := first_last_of_cons first rest
  rw [rangePrefix, rangePrefixLen, hfirst, hlast]

/-- A leaf passes exactly when it is the canonical leaf of a valid range. -/
theorem validateLeaf_eq_ok {leaf : ManifestLeaf} {stored : Bytes}
    {info : ValidationInfo} :
    validateLeaf tables leaf stored = .ok info ↔
      encodeLeaf leaf = .ok stored ∧
      ∃ range, ValidRange tables range ∧ TotalsFit range ∧ range ≠ [] ∧
        RangeIsLeaf manifestLeafTargetBytes range ∧
        ⟨rangePrefix range, range.map KeyedEntry.entry⟩ = leaf ∧
        ⟨totals range, firstKey range, lastKey range, 0⟩ = info := by
  obtain ⟨portablePrefix, entries⟩ := leaf
  simp only [validateLeaf, except_bind_eq_ok, liftM_codec_eq_ok, except_guard_eq_ok,
    except_pure_eq_ok, orError_eq_ok, mapM_keyedEntry_eq_ok, ne_eq, not_not]
  constructor
  · rintro ⟨bytes, hbytes, rfl, hne, hsize, range, ⟨rfl, hkeyed⟩, _, hordered, first,
      hfirst, hcommon, summary, hsummary, rfl⟩
    obtain ⟨rest, rfl⟩ : ∃ rest, range = first :: rest := by
      cases range with
      | nil => simp at hfirst
      | cons head tail =>
          rw [List.head?_cons, Option.some.injEq] at hfirst
          exact ⟨tail, by rw [hfirst]⟩
    obtain ⟨hfirstKey, hlastKey⟩ := first_last_of_cons first rest
    obtain ⟨hfit, rfl⟩ := leafSummary_eq_ok.mp hsummary
    rw [rangePrefix_cons] at hcommon
    subst hcommon
    refine ⟨hbytes, first :: rest, ⟨hkeyed, validateOrderedKeys_eq_ok.mp hordered⟩,
      hfit, by simp, ?_, rfl, by rw [hfirstKey, hlastKey]⟩
    rw [length_encodeLeaf hbytes, List.length_map] at hsize
    rw [RangeIsLeaf]
    omega
  · rintro ⟨hbytes, range, hvalid, hfit, hne, hleaf, heq, rfl⟩
    rw [ManifestLeaf.mk.injEq] at heq
    obtain ⟨rfl, rfl⟩ := heq
    obtain ⟨first, rest, rfl⟩ := List.exists_cons_of_ne_nil hne
    obtain ⟨hfirstKey, hlastKey⟩ := first_last_of_cons first rest
    refine ⟨stored, hbytes, rfl, by simp, ?_, first :: rest, ⟨rfl, hvalid.keyed⟩, (),
      validateOrderedKeys_eq_ok.mpr hvalid.ordered, first, rfl,
      (rangePrefix_cons first rest).symm, totals (first :: rest),
      leafSummary_eq_ok.mpr ⟨hfit, rfl⟩, by rw [hfirstKey, hlastKey]⟩
    rw [length_encodeLeaf hbytes, List.length_map]
    rw [RangeIsLeaf] at hleaf
    omega

/-- A node's own checks. -/
theorem checkNode_eq_ok {node : ManifestNode} {stored : Bytes} {result : Unit} :
    checkNode node stored = .ok result ↔
      encodeNode node = .ok stored ∧ 2 ≤ node.children.length ∧
        edgesIncreasing node.children = true := by
  simp only [checkNode, except_bind_eq_ok, liftM_codec_eq_ok, except_guard_eq_ok,
    ne_eq, not_not, not_lt, Bool.not_eq_false]
  constructor
  · rintro ⟨_, hencode, rfl, hlength, hedges, -⟩
    exact ⟨hencode, hlength, hedges⟩
  · rintro ⟨hencode, hlength, hedges⟩
    exact ⟨stored, hencode, rfl, hlength, hedges, trivial⟩

theorem edgesIncreasing_iff {children : List ManifestChild} :
    edgesIncreasing children = true ↔
      children.IsChain fun left right => left.edge < right.edge := by
  induction children with
  | nil => simp [edgesIncreasing]
  | cons first rest ih =>
      cases rest with
      | nil => simp [edgesIncreasing]
      | cons second rest =>
          rw [edgesIncreasing, Bool.and_eq_true, decide_eq_true_iff,
            List.isChain_cons_cons, ih]

/-- What the loop over the children knows after the ranges read so far. -/
structure NodeScan (tables : UnicodeTables) (node : ManifestNode)
    (children : List ManifestChild) (ranges : List (List KeyedEntry))
    (heights : List Nat) (progress : NodeProgress) : Prop where
  keyed : ∀ keyed ∈ ranges.flatten, keyedEntry tables keyed.entry = .ok keyed
  ordered : KeysOrdered ranges.flatten
  fit : TotalsFit ranges.flatten
  childRange : List.Forall₂ (fun child range => range ≠ [] ∧
    child.summary = totals range ∧ node.portablePrefix <+: firstKey range ∧
    edgeAt (firstKey range) node.portablePrefix.length = child.edge ∧
    edgeAt (lastKey range) node.portablePrefix.length = child.edge) children ranges
  firstKey_eq : progress.firstKey = (ranges.flatten.head?).map KeyedEntry.key
  lastKey_eq : progress.lastKey = (ranges.flatten.getLast?).map KeyedEntry.key
  summary_eq : progress.summary = totals ranges.flatten
  height_eq : progress.maximumRelativeDepth =
    (heights.map (· + 1)).foldr max 0

theorem NodeScan.start (node : ManifestNode) :
    NodeScan tables node [] [] [] NodeProgress.start where
  keyed := by simp
  ordered := by simp [KeysOrdered]
  fit := TotalsFit.nil
  childRange := .nil
  firstKey_eq := rfl
  lastKey_eq := rfl
  summary_eq := rfl
  height_eq := rfl

theorem firstKey_eq_of_ne_nil {range : List KeyedEntry} (hne : range ≠ []) :
    range.head?.map KeyedEntry.key = some (firstKey range) := by
  obtain ⟨first, rest, rfl⟩ := List.exists_cons_of_ne_nil hne
  rfl

theorem lastKey_eq_of_ne_nil {range : List KeyedEntry} (hne : range ≠ []) :
    range.getLast?.map KeyedEntry.key = some (lastKey range) := by
  rw [lastKey, List.getLast?_eq_some_getLast hne]
  rfl

theorem getLast?_append_of_ne_nil {α : Type} {left right : List α} (hne : right ≠ []) :
    (left ++ right).getLast? = right.getLast? := by
  rw [List.getLast?_append, List.getLast?_eq_some_getLast hne]
  rfl

/-- The order check between a child and the one before it. -/
theorem checkChildOrder_eq_ok {before range : List KeyedEntry} (hne : range ≠ []) :
    checkChildOrder (before.getLast?.map KeyedEntry.key) (firstKey range) = .ok () ↔
      ∀ previous ∈ before.getLast?, ∀ current ∈ range.head?,
        KeysFollow previous current := by
  obtain ⟨first, rest, rfl⟩ := List.exists_cons_of_ne_nil hne
  rw [(first_last_of_cons first rest).1]
  cases before.getLast? with
  | none => simp [checkChildOrder]
  | some previous => simp [checkChildOrder, KeysFollow]

theorem foldr_max_append_singleton (values : List Nat) (value : Nat) :
    (values ++ [value]).foldr max 0 = max (values.foldr max 0) value := by
  induction values with
  | nil => simp
  | cons head tail ih => simp [ih, max_assoc]

/-- Advancing the loop by a child whose range is known. -/
theorem NodeScan.advance_iff {node : ManifestNode} {children : List ManifestChild}
    {ranges : List (List KeyedEntry)} {heights : List Nat} {progress : NodeProgress}
    (h : NodeScan tables node children ranges heights progress)
    {child : ManifestChild} {range : List KeyedEntry} {height : Nat}
    (hvalid : ValidRange tables range) (hfit : TotalsFit range) (hne : range ≠ [])
    {next : NodeProgress}
    (hadvance : advanceNode node child
      ⟨totals range, firstKey range, lastKey range, height⟩ progress = .ok next) :
    NodeScan tables node (children ++ [child]) (ranges ++ [range])
      (heights ++ [height]) next := by
  simp only [advanceNode, except_bind_eq_ok, except_guard_eq_ok, except_pure_eq_ok,
    liftM_codec_eq_ok, ne_eq, not_not, not_or, Bool.not_eq_false] at hadvance
  obtain ⟨hsummary, ⟨hcommon, hfirstEdge, hlastEdge⟩, _, horder, summary, hadd, rfl⟩ :=
    hadvance
  rw [h.lastKey_eq] at horder
  have hfollow := (checkChildOrder_eq_ok hne).mp horder
  rw [h.summary_eq] at hadd
  obtain ⟨hboth, rfl⟩ := (checkedAdd_totals h.fit hfit).mp hadd
  have hflat : (ranges ++ [range]).flatten = ranges.flatten ++ range := by simp
  constructor
  · intro keyed hkeyed
    rw [hflat, List.mem_append] at hkeyed
    exact hkeyed.elim (h.keyed keyed) (hvalid.keyed keyed)
  · rw [hflat, KeysOrdered, List.isChain_append]
    exact ⟨h.ordered, hvalid.ordered, hfollow⟩
  · rwa [hflat]
  · refine List.rel_append h.childRange (.cons ⟨hne, hsummary.symm, ?_, hfirstEdge,
      hlastEdge⟩ .nil)
    exact List.isPrefixOf_iff_prefix.mp hcommon
  · rw [hflat, h.firstKey_eq, List.head?_append]
    cases ranges.flatten.head? with
    | none => simp [firstKey_eq_of_ne_nil hne]
    | some first => simp
  · rw [hflat, getLast?_append_of_ne_nil hne, lastKey_eq_of_ne_nil hne]
  · rw [hflat]
  · rw [List.map_append, List.map_singleton, foldr_max_append_singleton, h.height_eq]

/-! The keys of an ordered range lie between its first and its last. -/

theorem firstKey_le {range : List KeyedEntry}
    (h : range.Pairwise fun left right => left.key < right.key)
    {keyed : KeyedEntry} (hkeyed : keyed ∈ range) : firstKey range ≤ keyed.key := by
  obtain ⟨first, rest, rfl⟩ := List.exists_cons_of_ne_nil (List.ne_nil_of_mem hkeyed)
  rw [(first_last_of_cons first rest).1]
  rcases List.mem_cons.mp hkeyed with rfl | hrest
  · exact le_refl _
  · exact (List.rel_of_pairwise_cons h hrest).le

theorem le_lastKey {range : List KeyedEntry}
    (h : range.Pairwise fun left right => left.key < right.key)
    {keyed : KeyedEntry} (hkeyed : keyed ∈ range) : keyed.key ≤ lastKey range := by
  have hne := List.ne_nil_of_mem hkeyed
  have hlast : lastKey range = (range.getLast hne).key := by
    rw [lastKey, List.getLast?_eq_some_getLast hne]
    rfl
  rw [hlast]
  rw [← List.dropLast_append_getLast hne, List.mem_append, List.mem_singleton] at hkeyed
  rcases hkeyed with hfront | rfl
  · rw [← List.dropLast_append_getLast hne, List.pairwise_append] at h
    exact (h.2.2 _ hfront _ (List.mem_singleton.mpr rfl)).le
  · exact le_refl _

/-- The common prefix of the first and the last key is that of all keys. -/
theorem rangePrefix_common {range : List KeyedEntry}
    (h : range.Pairwise fun left right => left.key < right.key)
    {keyed : KeyedEntry} (hkeyed : keyed ∈ range) : rangePrefix range <+: keyed.key :=
  prefix_of_between (List.take_prefix _ _) (take_commonPrefixLen_prefix_right _ _)
    (firstKey_le h hkeyed) (le_lastKey h hkeyed)

theorem firstKey_mem {range : List KeyedEntry} (hne : range ≠ []) :
    ∃ keyed ∈ range, keyed.key = firstKey range := by
  obtain ⟨first, rest, rfl⟩ := List.exists_cons_of_ne_nil hne
  exact ⟨first, List.mem_cons_self, rfl⟩

theorem lastKey_mem {range : List KeyedEntry} (hne : range ≠ []) :
    ∃ keyed ∈ range, keyed.key = lastKey range := by
  refine ⟨range.getLast hne, List.getLast_mem hne, ?_⟩
  rw [lastKey, List.getLast?_eq_some_getLast hne]
  rfl

theorem ValidRange.of_part {range part : List KeyedEntry} (h : ValidRange tables range)
    (hpart : part <:+: range) : ValidRange tables part :=
  ⟨fun keyed hkeyed => h.keyed keyed (hpart.subset hkeyed), List.IsChain.infix h.ordered hpart⟩

theorem TotalsFit.of_part {range part : List KeyedEntry} (h : TotalsFit range)
    (hpart : part <:+: range) : TotalsFit part := by
  obtain ⟨front, back, rfl⟩ := hpart
  exact h.left.right

/-- The runs of a radix split have uniform edges when the outer keys do. -/
theorem uniformEdge_of_ends {pre : Bytes} {edge : UInt8} {range : List KeyedEntry}
    (h : KeysOrdered range) (hcommon : ∀ keyed ∈ range, pre <+: keyed.key)
    (hfirst : edgeAt (firstKey range) pre.length = edge)
    (hlast : edgeAt (lastKey range) pre.length = edge) :
    UniformEdge pre.length edge range := by
  intro keyed hkeyed
  have hne := List.ne_nil_of_mem hkeyed
  obtain ⟨first, hfirstMem, hfirstKey⟩ := firstKey_mem hne
  obtain ⟨last, hlastMem, hlastKey⟩ := lastKey_mem hne
  have hlow := edgeAt_le_of_le (hfirstKey ▸ hcommon first hfirstMem)
    (hcommon keyed hkeyed) (firstKey_le h.pairwise hkeyed)
  have hhigh := edgeAt_le_of_le (hcommon keyed hkeyed)
    (hlastKey ▸ hcommon last hlastMem) (le_lastKey h.pairwise hkeyed)
  rw [hfirst] at hlow
  rw [hlast] at hhigh
  exact le_antisymm hhigh hlow

/-- What a finished node is. -/
structure NodeFinished (node : ManifestNode) (ranges : List (List KeyedEntry))
    (heights : List Nat) (info : ValidationInfo) : Prop where
  not_leaf : ¬ RangeIsLeaf manifestLeafTargetBytes ranges.flatten
  length_lt : leafLen (rangePrefix ranges.flatten) ranges.flatten < 2 ^ 64
  children_eq : rangeChildren ranges.flatten = ranges
  node_eq : node = ⟨rangePrefix ranges.flatten,
    rangeManifestChildren ranges.flatten (node.children.map ManifestChild.child)⟩
  info_eq : info = ⟨totals ranges.flatten, firstKey ranges.flatten,
    lastKey ranges.flatten, (heights.map (· + 1)).foldr max 0⟩

theorem zipWith_eq_of_forall₂ {α β γ : Type} {f : α → β → γ} {g : γ → β}
    {values : List γ} {items : List α}
    (h : List.Forall₂ (fun value item => f item (g value) = value) values items) :
    List.zipWith f items (values.map g) = values := by
  induction h with
  | nil => rfl
  | cons hhead _ ih => rw [List.map_cons, List.zipWith_cons_cons, hhead, ih]

theorem length_flatten_ge {α : Type} {parts : List (List α)}
    (hne : ∀ part ∈ parts, part ≠ []) : parts.length ≤ parts.flatten.length := by
  induction parts with
  | nil => simp
  | cons head tail ih =>
      have hhead := List.length_pos_iff.mpr (hne head List.mem_cons_self)
      have htail := ih fun part hpart => hne part (List.mem_cons_of_mem _ hpart)
      simp only [List.length_cons, List.flatten_cons, List.length_append]
      omega

theorem isChain_of_forall₂ {α β : Type} {R : α → β → Prop} {S : α → α → Prop}
    {T : β → β → Prop} {values : List α} {items : List β}
    (h : List.Forall₂ R values items) (hchain : values.IsChain S)
    (himp : ∀ value value' item item', R value item → R value' item' →
      S value value' → T item item') : items.IsChain T := by
  induction h with
  | nil => exact .nil
  | cons hhead htail ih =>
      cases htail with
      | nil => exact .singleton _
      | cons hnext hrest =>
          obtain ⟨hS, htailChain⟩ := List.isChain_cons_cons.mp hchain
          exact .cons_cons (himp _ _ _ _ hhead hnext hS) (ih htailChain)

theorem NodeScan.ranges_ne_nil {node : ManifestNode} {children : List ManifestChild}
    {ranges : List (List KeyedEntry)} {heights : List Nat} {progress : NodeProgress}
    (h : NodeScan tables node children ranges heights progress) :
    ∀ range ∈ ranges, range ≠ [] := by
  intro range hrange
  obtain ⟨child, -, hchild⟩ := forall₂_mem_right h.childRange hrange
  exact hchild.1

/-- With the exact prefix, every child's range is a run with the child's edge. -/
theorem NodeScan.edges {node : ManifestNode} {children : List ManifestChild}
    {ranges : List (List KeyedEntry)} {heights : List Nat} {progress : NodeProgress}
    (h : NodeScan tables node children ranges heights progress)
    (hcommon : node.portablePrefix = rangePrefix ranges.flatten) :
    List.Forall₂ (fun child range =>
      rangeEdge (rangePrefixLen ranges.flatten) range = child.edge ∧
        UniformEdge (rangePrefixLen ranges.flatten) child.edge range ∧
        child.summary = totals range) children ranges := by
  refine forall₂_imp_mem h.childRange fun child _ range hrange hchild => ?_
  obtain ⟨-, hsummary, -, hfirst, hlast⟩ := hchild
  have hlength : node.portablePrefix.length = rangePrefixLen ranges.flatten := by
    rw [hcommon, length_rangePrefix]
  rw [edgeOf_head, ← hlength]
  refine ⟨hfirst, ?_, hsummary⟩
  obtain ⟨front, back, hsplit⟩ := List.append_of_mem hrange
  have hordered : KeysOrdered range :=
    List.IsChain.infix h.ordered ⟨front.flatten, back.flatten, by rw [hsplit]; simp⟩
  refine uniformEdge_of_ends hordered (fun keyed hkeyed => ?_) hfirst hlast
  rw [hcommon]
  exact rangePrefix_common h.ordered.pairwise (List.mem_flatten.mpr ⟨range, hrange, hkeyed⟩)

/-- The edges of the children increase, so their ranges are the runs of the
split. -/
theorem NodeScan.finish {node : ManifestNode} {ranges : List (List KeyedEntry)}
    {heights : List Nat} {progress : NodeProgress} {info : ValidationInfo}
    (h : NodeScan tables node node.children ranges heights progress)
    (htwo : 2 ≤ node.children.length)
    (hedges : edgesIncreasing node.children = true)
    (hfinish : finishNode node progress = .ok info) :
    NodeFinished node ranges heights info := by
  simp only [finishNode, except_bind_eq_ok, except_guard_eq_ok, except_pure_eq_ok,
    orError_eq_ok, ne_eq, not_not, not_le] at hfinish
  obtain ⟨first, hfirst, last, hlast, hcommon, length, hlength, hlarge, rfl⟩ := hfinish
  have hcount : 2 ≤ ranges.flatten.length := by
    have hle := length_flatten_ge h.ranges_ne_nil
    rw [← h.childRange.length_eq] at hle
    omega
  have hne : ranges.flatten ≠ [] := List.ne_nil_of_length_pos (by omega)
  rw [h.firstKey_eq, firstKey_eq_of_ne_nil hne, Option.some.injEq] at hfirst
  rw [h.lastKey_eq, lastKey_eq_of_ne_nil hne, Option.some.injEq] at hlast
  subst hfirst hlast
  have hcommon' : node.portablePrefix = rangePrefix ranges.flatten := hcommon
  rw [h.summary_eq, hcommon', leafEncodedLen_eq_ok h.fit] at hlength
  obtain ⟨hlt, rfl⟩ := hlength
  have hedge := h.edges hcommon'
  have hsplit : rangeChildren ranges.flatten = ranges := by
    refine splitChildren_flatten_of_runs h.ranges_ne_nil ?_ ?_
    · intro range hrange
      obtain ⟨child, -, hrangeEdge, hrangeUniform, -⟩ := forall₂_mem_right hedge hrange
      rwa [hrangeEdge]
    · refine isChain_of_forall₂ hedge (edgesIncreasing_iff.mp hedges) ?_
      rintro child child' range range' ⟨hleft, -⟩ ⟨hright, -⟩ hlt
      rw [hleft, hright]
      exact hlt.ne
  refine ⟨?_, hlt, hsplit, ?_, by rw [h.summary_eq, h.height_eq]⟩
  · rw [RangeIsLeaf]
    omega
  · have hchildren : rangeManifestChildren ranges.flatten
        (node.children.map ManifestChild.child) = node.children := by
      rw [rangeManifestChildren, hsplit]
      refine zipWith_eq_of_forall₂ (hedge.imp ?_)
      rintro child range ⟨hrangeEdge, -, hsummary⟩
      rw [hrangeEdge, ← hsummary]
    rw [hchildren, ← hcommon']

end Hash

end CheckPo
