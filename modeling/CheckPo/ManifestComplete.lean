/-
Completeness of validation: a valid canonical tree that the source holds is
accepted whenever its chunks and those already cached stay within the limits.
-/
import CheckPo.ManifestUnique

namespace CheckPo

section Hash

variable {blake3 : Bytes → Digest32} {tables : UnicodeTables}
variable {source : ManifestChunkSource}

/-! The checks of a canonical node succeed. -/

/-- The edges at both ends of a run are the run's. -/
theorem rangeChildren_ends {range child : List KeyedEntry}
    (hchild : child ∈ rangeChildren range) :
    edgeAt (firstKey child) (rangePrefixLen range) =
        rangeEdge (rangePrefixLen range) child ∧
      edgeAt (lastKey child) (rangePrefixLen range) =
        rangeEdge (rangePrefixLen range) child := by
  have huniform := splitChildren_uniformEdge hchild
  have hne := rangeChildren_ne_nil range child hchild
  obtain ⟨first, hfirst, hfirstKey⟩ := firstKey_mem hne
  obtain ⟨last, hlast, hlastKey⟩ := lastKey_mem hne
  rw [← hfirstKey, ← hlastKey]
  exact ⟨huniform first hfirst, huniform last hlast⟩

theorem isChain_combine {α : Type} {R S T : α → α → Prop} {values : List α}
    (hR : values.IsChain R) (hS : values.IsChain S)
    (himp : ∀ left right, R left right → S left right → T left right) :
    values.IsChain T := by
  induction values with
  | nil => exact .nil
  | cons first rest ih =>
      cases rest with
      | nil => exact .singleton _
      | cons second rest =>
          rw [List.isChain_cons_cons] at hR hS
          exact .cons_cons (himp _ _ hR.1 hS.1) (ih hR.2 hS.2)

/-- The edges of an ordered range's runs strictly increase. -/
theorem rangeChildren_edges_increasing {range : List KeyedEntry}
    (hordered : KeysOrdered range) :
    (rangeChildren range).IsChain fun left right =>
      rangeEdge (rangePrefixLen range) left < rangeEdge (rangePrefixLen range) right := by
  have hflat : (rangeChildren range).flatten.Pairwise fun left right =>
      left.key < right.key := by
    rw [rangeChildren_flatten]
    exact hordered.pairwise
  have hpairs := (List.pairwise_flatten.mp hflat).2
  have hle : (rangeChildren range).Pairwise fun left right =>
      rangeEdge (rangePrefixLen range) left ≤ rangeEdge (rangePrefixLen range) right := by
    refine hpairs.imp_of_mem fun {left right} hleft hright hkeys => ?_
    obtain ⟨first, hfirst, hfirstKey⟩ := firstKey_mem (rangeChildren_ne_nil range left hleft)
    obtain ⟨next, hnext, hnextKey⟩ := firstKey_mem (rangeChildren_ne_nil range right hright)
    rw [edgeOf_head, edgeOf_head, ← hfirstKey, ← hnextKey, ← length_rangePrefix]
    exact edgeAt_le_of_le
      (rangePrefix_common hordered.pairwise (splitChildren_mem_subset hleft hfirst))
      (rangePrefix_common hordered.pairwise (splitChildren_mem_subset hright hnext))
      (hkeys first hfirst next hnext).le
  have hne := splitChildren_isChain (rangePrefixLen range) range
  exact isChain_combine hle.isChain hne fun _ _ hle hne => lt_of_le_of_ne hle hne

theorem edgesIncreasing_rangeManifestChildren {range : List KeyedEntry}
    (hordered : KeysOrdered range) {references : List ManifestRef}
    (hlength : references.length = (rangeChildren range).length) :
    edgesIncreasing (rangeManifestChildren range references) = true := by
  rw [edgesIncreasing_iff, rangeManifestChildren]
  have hchain := rangeChildren_edges_increasing hordered
  generalize rangeChildren range = children at hlength hchain
  induction children generalizing references with
  | nil => simp
  | cons child children ih =>
      obtain ⟨reference, references, rfl⟩ : ∃ head tail, references = head :: tail :=
        List.exists_cons_of_length_eq_add_one hlength
      cases children with
      | nil => simp
      | cons next children =>
          obtain ⟨other, references, rfl⟩ : ∃ head tail, references = head :: tail :=
            List.exists_cons_of_length_eq_add_one (by simpa using hlength)
          obtain ⟨hlt, hrest⟩ := List.isChain_cons_cons.mp hchain
          have hrestChain := @ih (other :: references) (by simpa using hlength) hrest
          exact .cons_cons hlt hrestChain

/-- The next child of a canonical node passes its checks. -/
theorem NodeScan.advance_ok {node : ManifestNode} {children : List ManifestChild}
    {done rest : List (List KeyedEntry)} {heights : List Nat} {progress : NodeProgress}
    (h : NodeScan tables node children done heights progress)
    {range child : List KeyedEntry} (hordered : KeysOrdered range) (hfit : TotalsFit range)
    (hcommon : node.portablePrefix = rangePrefix range)
    (hsplit : rangeChildren range = done ++ child :: rest) (reference : ManifestRef)
    (height : Nat) :
    ∃ next, advanceNode node
      ⟨rangeEdge (rangePrefixLen range) child, reference, totals child⟩
      ⟨totals child, firstKey child, lastKey child, height⟩ progress = .ok next := by
  have hmem : child ∈ rangeChildren range := by rw [hsplit]; simp
  have hne := rangeChildren_ne_nil range child hmem
  have hflat : done.flatten ++ (child ++ rest.flatten) = range := by
    rw [← rangeChildren_flatten range, hsplit]
    simp
  obtain ⟨hfirst, hlast⟩ := rangeChildren_ends hmem
  obtain ⟨first, hfirstMem, hfirstKey⟩ := firstKey_mem hne
  have hpre : rangePrefix range <+: firstKey child := by
    rw [← hfirstKey]
    exact rangePrefix_common hordered.pairwise (splitChildren_mem_subset hmem hfirstMem)
  have horder : checkChildOrder progress.lastKey (firstKey child) = .ok () := by
    rw [h.lastKey_eq, checkChildOrder_eq_ok hne]
    rw [← hflat, KeysOrdered, List.isChain_append] at hordered
    intro previous hprevious current hcurrent
    refine hordered.2.2 previous hprevious current ?_
    rw [List.head?_append, Option.mem_def.mp hcurrent]
    rfl
  have hadd : progress.summary.checkedAdd (totals child) =
      .ok (totals (done.flatten ++ child)) := by
    rw [← hflat, ← List.append_assoc] at hfit
    rw [h.summary_eq]
    exact (checkedAdd_totals h.fit hfit.left.right).mpr ⟨hfit.left, rfl⟩
  simp only [advanceNode, except_bind_eq_ok, except_guard_eq_ok, except_pure_eq_ok,
    liftM_codec_eq_ok, ne_eq, not_not, not_or, Bool.not_eq_false, hcommon,
    length_rangePrefix]
  exact ⟨_, trivial, ⟨List.isPrefixOf_iff_prefix.mpr hpre, hfirst, hlast⟩, (), horder, _,
    hadd, rfl⟩

/-- A canonical node passes the checks after its children. -/
theorem NodeScan.finish_ok (range : List KeyedEntry) {node : ManifestNode}
    {heights : List Nat} {progress : NodeProgress}
    (h : NodeScan tables node node.children (rangeChildren range) heights progress)
    (hne : range ≠ []) (hcommon : node.portablePrefix = rangePrefix range)
    (hleaf : ¬ RangeIsLeaf manifestLeafTargetBytes range)
    (hlt : leafLen (rangePrefix range) range < 2 ^ 64) :
    finishNode node progress = .ok ⟨totals range, firstKey range, lastKey range,
      (heights.map (· + 1)).foldr max 0⟩ := by
  have hflat := rangeChildren_flatten range
  simp only [finishNode, except_bind_eq_ok, except_guard_eq_ok, except_pure_eq_ok,
    orError_eq_ok, ne_eq, not_not, not_le, h.firstKey_eq, h.lastKey_eq, h.summary_eq, hflat,
    firstKey_eq_of_ne_nil hne, lastKey_eq_of_ne_nil hne, h.height_eq]
  rw [RangeIsLeaf, not_or, not_le] at hleaf
  have hfit : TotalsFit range := hflat ▸ h.fit
  rw [hcommon]
  exact ⟨_, rfl, _, rfl, rfl, _, (leafEncodedLen_eq_ok hfit).mpr ⟨hlt, rfl⟩, hleaf.1,
    rfl⟩

/-! Room for all chunks. -/

/-- A list of entries within the limits of one cache. -/
structure WithinLimits (all : List (ManifestRef × ValidationInfo)) : Prop where
  length_le : all.length ≤ maxManifestValidationChunks
  bytes_le : estimatedTotal all ≤ maxManifestValidationCacheBytes

/-- Everything cached and visited so far is among the given entries. -/
structure Room (all : List (ManifestRef × ValidationInfo)) (state : ValidationState) :
    Prop where
  cached : state.cache.validated ⊆ all
  visited_nodup : state.visited.Nodup
  visited_mem : state.visited ⊆ all.map Prod.fst

/-- The given entries describe the chunks of a tree. -/
def ListedIn (blake3 : Bytes → Digest32) (tables : UnicodeTables)
    (source : ManifestChunkSource) (all : List (ManifestRef × ValidationInfo))
    (added : Chunks) : Prop :=
  ∀ chunk ∈ added, ∀ levels info range below,
    Verified blake3 tables source levels chunk.1 info range below → (chunk.1, info) ∈ all

theorem estimatedTotal_le_of_subset {entries all : List (ManifestRef × ValidationInfo)}
    (hnodup : (entries.map Prod.fst).Nodup) (hsub : entries ⊆ all) :
    entries.length ≤ all.length ∧ estimatedTotal entries ≤ estimatedTotal all := by
  obtain ⟨part, hperm, hpart⟩ := hnodup.of_map.subperm hsub
  refine ⟨hperm.length_eq ▸ hpart.length_le, ?_⟩
  rw [estimatedTotal, ← (hperm.map _).sum_eq]
  exact (hpart.map _).sum_le_sum fun _ _ => Nat.zero_le _

/-- A listed entry that is not cached still fits. -/
theorem Room.cache_room {all : List (ManifestRef × ValidationInfo)}
    {state : ValidationState} (h : Room all state) (hlimits : WithinLimits all)
    (hfits : CacheFits state.cache) {reference : ManifestRef} {info : ValidationInfo}
    (hlisted : (reference, info) ∈ all)
    (hfresh : reference ∉ state.cache.validatedReferences) :
    state.cache.len < maxManifestValidationChunks ∧
      state.cache.estimatedHeapBytes + info.estimatedBytes ≤
        maxManifestValidationCacheBytes := by
  have hnodup : (((reference, info) :: state.cache.validated).map Prod.fst).Nodup :=
    List.nodup_cons.mpr ⟨hfresh, hfits.nodup⟩
  obtain ⟨hlength, hbytes⟩ := estimatedTotal_le_of_subset hnodup
    (List.cons_subset.mpr ⟨hlisted, h.cached⟩)
  have hlengthLimit := hlimits.length_le
  have hbytesLimit := hlimits.bytes_le
  have hestimate := hfits.estimate
  simp only [List.length_cons, estimatedTotal, List.map_cons, List.sum_cons] at hlength hbytes
  simp only [estimatedTotal] at hestimate hbytesLimit
  simp only [ManifestValidationCache.len]
  omega

/-- A listed reference that was not visited may be. -/
theorem Room.visit_room {all : List (ManifestRef × ValidationInfo)}
    {state : ValidationState} (h : Room all state) (hlimits : WithinLimits all)
    {reference : ManifestRef} (hlisted : reference ∈ all.map Prod.fst)
    (hfresh : reference ∉ state.visited) :
    state.visited.length < maxManifestValidationChunks := by
  have hnodup : (reference :: state.visited).Nodup :=
    List.nodup_cons.mpr ⟨hfresh, h.visited_nodup⟩
  have hlength := (hnodup.subperm
    (List.cons_subset.mpr ⟨hlisted, h.visited_mem⟩)).length_le
  have hlimit := hlimits.length_le
  simp only [List.length_cons, List.length_map] at hlength
  omega

/-- What a state has when a tree is about to be validated. -/
def Ready (blake3 : Bytes → Digest32) (tables : UnicodeTables)
    (source : ManifestChunkSource) (all : List (ManifestRef × ValidationInfo))
    (unvisited : List ManifestRef) (state : ValidationState) : Prop :=
  CacheInv blake3 tables source [] state.cache ∧ Room all state ∧
    ∀ item ∈ unvisited, item ∉ state.visited

theorem Ready.mono {all : List (ManifestRef × ValidationInfo)}
    {unvisited fewer : List ManifestRef} {state : ValidationState}
    (h : Ready blake3 tables source all unvisited state) (hsub : fewer ⊆ unvisited) :
    Ready blake3 tables source all fewer state :=
  ⟨h.1, h.2.1, fun item hitem => h.2.2 item (hsub hitem)⟩

/-- Validating a listed tree returns its range's info and leaves the references
to avoid unvisited. -/
def ValidatesListed (blake3 : Bytes → Digest32) (tables : UnicodeTables)
    (source : ManifestChunkSource) (all : List (ManifestRef × ValidationInfo))
    (levels : Nat) (validate : ManifestRef → ValidateM ValidationInfo) : Prop :=
  ∀ reference range added avoid,
    Verified blake3 tables source levels reference (rangeInfo levels range) range added →
    ListedIn blake3 tables source all added →
    (∀ item ∈ avoid, item ∉ added.map Prod.fst) →
    Triple (Ready blake3 tables source all (avoid ++ added.map Prod.fst))
      (validate reference)
      (fun info state => info = rangeInfo levels range ∧
        Ready blake3 tables source all avoid state)
      (fun _ => False)

theorem ListedIn.left {all : List (ManifestRef × ValidationInfo)} {left right : Chunks}
    (h : ListedIn blake3 tables source all (left ++ right)) :
    ListedIn blake3 tables source all left :=
  fun chunk hchunk => h chunk (List.mem_append_left _ hchunk)

theorem ListedIn.right {all : List (ManifestRef × ValidationInfo)} {left right : Chunks}
    (h : ListedIn blake3 tables source all (left ++ right)) :
    ListedIn blake3 tables source all right :=
  fun chunk hchunk => h chunk (List.mem_append_right _ hchunk)

/-- The loop over the children of a canonical node runs to its end. -/
theorem validateChildren_complete (avoid : List ManifestRef) (node : ManifestNode)
    {all : List (ManifestRef × ValidationInfo)}
    {levels : Nat} {validate : ManifestRef → ValidateM ValidationInfo}
    (hvalidate : ValidatesListed blake3 tables source all levels validate)
    {range : List KeyedEntry} (hvalid : ValidRange tables range)
    (hfit : TotalsFit range) (hcommon : node.portablePrefix = rangePrefix range)
    {children : List ManifestChild} {done rest : List (List KeyedEntry)}
    {built : List (ManifestRef × Chunks)} {progress : NodeProgress}
    (hsplit : rangeChildren range = done ++ rest)
    (hscan : NodeScan tables node children done
      (done.map (radixHeight manifestLeafTargetBytes levels)) progress)
    (hbuilt : List.Forall₂ (fun child chunk =>
      Canonical blake3 manifestLeafTargetBytes levels child chunk.1 chunk.2) rest built)
    (hholds : Holds (sourceTable source) (built.map Prod.snd).flatten)
    (hlisted : ListedIn blake3 tables source all (built.map Prod.snd).flatten)
    (hnodup : ((built.map Prod.snd).flatten.map Prod.fst).Nodup)
    (havoid : ∀ item ∈ avoid, item ∉ (built.map Prod.snd).flatten.map Prod.fst) :
    Triple (Ready blake3 tables source all
        (avoid ++ (built.map Prod.snd).flatten.map Prod.fst))
      (validateChildren validate node (List.zipWith (fun child reference =>
        ⟨rangeEdge (rangePrefixLen range) child, reference, totals child⟩) rest
          (built.map Prod.fst)) progress)
      (fun progress state => NodeScan tables node
          (children ++ List.zipWith (fun child reference =>
            ⟨rangeEdge (rangePrefixLen range) child, reference, totals child⟩) rest
              (built.map Prod.fst)) (done ++ rest)
          ((done ++ rest).map (radixHeight manifestLeafTargetBytes levels)) progress ∧
        Ready blake3 tables source all avoid state)
      (fun _ => False) := by
  induction hbuilt generalizing children done progress avoid with
  | nil =>
      refine Triple.pure fun state hstate => ⟨?_, hstate.mono (by simp)⟩
      simpa using hscan
  | @cons child chunk rest built hhead htail ih =>
      have hmem : child ∈ rangeChildren range := by rw [hsplit]; simp
      have hchildValid := hvalid.of_part (rangeChildren_within hmem)
      have hchildFit := hfit.of_part (rangeChildren_within hmem)
      rw [List.map_cons, List.flatten_cons] at hholds hlisted
      have hverified : Verified blake3 tables source levels chunk.1
          (rangeInfo levels child) child chunk.2 :=
        ⟨hchildValid, hchildFit, hhead, hholds.left, rfl⟩
      have hrefs : ((chunk :: built).map Prod.snd).flatten.map Prod.fst =
          chunk.2.map Prod.fst ++ (built.map Prod.snd).flatten.map Prod.fst := by simp
      rw [hrefs] at hnodup havoid ⊢
      rw [List.nodup_append'] at hnodup
      have hswap : (avoid ++ (chunk.2.map Prod.fst ++
          (built.map Prod.snd).flatten.map Prod.fst)).Perm
          ((avoid ++ (built.map Prod.snd).flatten.map Prod.fst) ++
            chunk.2.map Prod.fst) := by
        rw [List.append_assoc]
        exact List.perm_append_comm.append_left avoid
      have hfirst := hvalidate chunk.1 child chunk.2
        (avoid ++ (built.map Prod.snd).flatten.map Prod.fst) hverified hlisted.left
        fun item hitem hin => (List.mem_append.mp hitem).elim
          (fun hitem => havoid item hitem (List.mem_append_left _ hin))
          (fun hitem => hnodup.2.2 hin hitem)
      obtain ⟨next, hnext⟩ := hscan.advance_ok hvalid.ordered hfit hcommon hsplit chunk.1
        (radixHeight manifestLeafTargetBytes levels child)
      have hrestSplit : rangeChildren range = (done ++ [child]) ++ rest := by
        simpa using hsplit
      have hrestScan := hscan.advance_iff hchildValid hchildFit hhead.ne_nil hnext
      have hheights : done.map (radixHeight manifestLeafTargetBytes levels) ++
          [radixHeight manifestLeafTargetBytes levels child] =
          (done ++ [child]).map (radixHeight manifestLeafTargetBytes levels) := by simp
      rw [hheights] at hrestScan
      have hstep := ih avoid hrestSplit hrestScan hholds.right hlisted.right hnodup.2.1
        fun item hitem hin => havoid item hitem (List.mem_append_right _ hin)
      rw [List.map_cons, List.zipWith_cons_cons]
      refine Triple.bind (hfirst.weaken (fun _ hstate => hstate.mono hswap.symm.subset)
        (fun _ _ hpost => hpost) fun _ hfail => hfail) fun info => ?_
      refine Triple.of_pre (fun _ hpost => hpost.1) fun hinfo => ?_
      subst hinfo
      refine Triple.bind (Triple.lift (fun value state hvalue hpost =>
        And.intro hvalue hpost.2) fun error state herror _ => ?_) fun value => ?_
      · exact absurd (herror.symm.trans hnext) (by simp)
      refine Triple.of_pre (fun _ hpost => hpost.1) fun hvalue => ?_
      have heq : next = value := Except.ok.inj (hnext.symm.trans hvalue)
      subst heq
      refine hstep.weaken (fun _ hpost => hpost.2) (fun _ _ hpost => ?_)
        fun _ hfail => hfail
      simpa using hpost

/-- Recording a listed entry succeeds. -/
theorem cacheChunk_complete {all : List (ManifestRef × ValidationInfo)}
    (hlimits : WithinLimits all) {reference : ManifestRef} {info : ValidationInfo}
    (hlisted : (reference, info) ∈ all) {avoid : List ManifestRef} :
    Triple (Ready blake3 tables source all avoid)
      (do cacheChunk reference info; pure info)
      (fun result state => result = info ∧ Room all state ∧
        ∀ item ∈ avoid, item ∉ state.visited)
      (fun _ => False) := by
  refine Triple.bind (cacheChunk_triple reference info (fun state => Room all state ∧
      ∀ item ∈ avoid, item ∉ state.visited)
    (fun _ hstate _ => hstate.2) ?_ ?_) fun _ =>
      Triple.pure fun state hstate => ⟨rfl, hstate⟩
  · rintro state ⟨-, hroom, havoid⟩ - - -
    refine ⟨⟨?_, hroom.visited_nodup, hroom.visited_mem⟩, havoid⟩
    exact List.cons_subset.mpr ⟨hlisted, hroom.cached⟩
  · rintro state ⟨hinv, hroom, -⟩ hfresh hfull
    have hspace := hroom.cache_room hlimits hinv.fits hlisted hfresh
    omega

/-- Two infos verified for one reference are equal. -/
theorem Verified.info_unique {levels more : Nat} {reference : ManifestRef}
    {info info' : ValidationInfo} {range range' : List KeyedEntry}
    {added added' : Chunks}
    (h : Verified blake3 tables source levels reference info range added)
    (h' : Verified blake3 tables source more reference info' range' added') :
    info = info' ∧ range = range' := by
  have hrange := h.canonical.range_unique h'.canonical h.holds h'.holds
    h.valid.keyed h'.valid.keyed
  subst hrange
  refine ⟨?_, rfl⟩
  rw [h.info_eq, h'.info_eq, rangeInfo, rangeInfo, h.canonical.height_eq h'.canonical]

theorem Verified.root_listed {all : List (ManifestRef × ValidationInfo)} {levels : Nat}
    {reference : ManifestRef} {info : ValidationInfo} {range : List KeyedEntry} {added : Chunks}
    (h : Verified blake3 tables source levels reference info range added)
    (hlisted : ListedIn blake3 tables source all added) : (reference, info) ∈ all := by
  obtain ⟨chunk, hchunk, hreference⟩ := List.mem_map.mp h.canonical.root_mem
  have hmem := hlisted chunk hchunk levels info range added (hreference ▸ h)
  rwa [hreference] at hmem

/-- A listed reference can be visited once. -/
theorem visitChunk_complete {all : List (ManifestRef × ValidationInfo)}
    (hlimits : WithinLimits all) {reference : ManifestRef} (hlisted : reference ∈ all.map Prod.fst)
    {avoid refs : List ManifestRef} (hreference : reference ∈ refs) (havoid : reference ∉ avoid) :
    Triple (Ready blake3 tables source all (avoid ++ refs)) (visitChunk reference)
      (fun _ => Ready blake3 tables source all (avoid ++ refs.filter (· ≠ reference)))
      (fun _ => False) := by
  refine visitChunk_triple reference _ ?_ ?_
  · rintro state ⟨hinv, hroom, hunvisited⟩ - hfresh
    refine ⟨hinv, ⟨hroom.cached, List.nodup_cons.mpr ⟨hfresh, hroom.visited_nodup⟩,
      List.cons_subset.mpr ⟨hlisted, hroom.visited_mem⟩⟩, ?_⟩
    intro item hitem
    rw [List.mem_cons, not_or]
    rcases List.mem_append.mp hitem with hitem | hitem
    · refine ⟨fun heq => ?_, hunvisited item (List.mem_append_left _ hitem)⟩
      exact havoid (heq ▸ hitem)
    · rw [List.mem_filter, decide_eq_true_iff] at hitem
      exact ⟨hitem.2, hunvisited item (List.mem_append_right _ hitem.1)⟩
  · rintro state ⟨hinv, hroom, hunvisited⟩ hfull
    have hfresh := hunvisited reference (List.mem_append_right _ hreference)
    have hspace := hroom.visit_room hlimits hlisted hfresh
    rcases hfull with hfull | hseen
    · exact absurd hspace (not_lt.mpr hfull)
    · exact hfresh hseen

/-- The leaf of a range loads and passes its check. -/
theorem Verified.leaf_checked {levels : Nat} {reference : ManifestRef} {info : ValidationInfo}
    {range : List KeyedEntry} {added : Chunks}
    (h : Verified blake3 tables source (levels + 1) reference info range added)
    (hleaf : RangeIsLeaf manifestLeafTargetBytes range) :
    ∃ leaf bytes, loadChunk blake3 source reference = .ok (.leaf leaf bytes) ∧
      validateLeaf tables leaf bytes = .ok (rangeInfo (levels + 1) range) := by
  obtain ⟨hne, -, bytes, hbytes, rfl, rfl⟩ := (canonical_leaf hleaf).mp h.canonical
  refine ⟨_, bytes, loadChunk_leaf
    (sourceTable_eq_some.mp (h.holds _ List.mem_cons_self)) hbytes, ?_⟩
  exact validateLeaf_eq_ok.mpr ⟨hbytes, range, h.valid, h.fit, hne, hleaf, rfl,
    by rw [rangeInfo, radixHeight, if_pos hleaf]⟩

/-- The node of a range loads and passes the checks before its children. -/
theorem Verified.node_checked {levels : Nat} {reference : ManifestRef} {info : ValidationInfo}
    {range : List KeyedEntry} {added : Chunks}
    (h : Verified blake3 tables source (levels + 1) reference info range added)
    (hleaf : ¬ RangeIsLeaf manifestLeafTargetBytes range) :
    ∃ built bytes, List.Forall₂ (fun child chunk =>
        Canonical blake3 manifestLeafTargetBytes levels child chunk.1 chunk.2)
          (rangeChildren range) built ∧
      added = (built.map Prod.snd).flatten ++ [(reference, bytes)] ∧
      loadChunk blake3 source reference = .ok (.node ⟨rangePrefix range,
        rangeManifestChildren range (built.map Prod.fst)⟩ bytes) ∧
      checkNode ⟨rangePrefix range, rangeManifestChildren range (built.map Prod.fst)⟩ bytes =
        .ok () := by
  obtain ⟨-, -, hsplit, built, hbuilt, bytes, hbytes, rfl, rfl⟩ :=
    (canonical_node hleaf).mp h.canonical
  have hlength : (built.map Prod.fst).length = (rangeChildren range).length := by
    simp [hbuilt.length_eq]
  refine ⟨built, bytes, hbuilt, rfl, loadChunk_node (sourceTable_eq_some.mp
    (h.holds (nodeRef blake3 bytes, bytes) (by simp))) hbytes, ?_⟩
  refine checkNode_eq_ok.mpr ⟨hbytes, ?_,
    edgesIncreasing_rangeManifestChildren h.valid.ordered hlength⟩
  rw [rangeManifestChildren, List.length_zipWith, hlength, min_self]
  exact hsplit

/-- A listed tree is validated, within the limits, from any cache that fits. -/
theorem validateSubtree_complete {all : List (ManifestRef × ValidationInfo)}
    (hlimits : WithinLimits all) (levels : Nat) :
    ValidatesListed blake3 tables source all levels
      (validateSubtree blake3 tables source levels) := by
  induction levels with
  | zero => exact fun _ _ _ _ hverified => hverified.canonical.elim
  | succ levels ih =>
      intro reference range added avoid hverified hlisted havoid
      have hsound := @validateSubtree_sound blake3 tables source (levels + 1) reference []
      suffices hcomplete : Triple
          (Ready blake3 tables source all (avoid ++ added.map Prod.fst))
          (validateSubtree blake3 tables source (levels + 1) reference)
          (fun info state => info = rangeInfo (levels + 1) range ∧ Room all state ∧
            ∀ item ∈ avoid, item ∉ state.visited) (fun _ => False) by
        refine (hcomplete.and hsound).weaken (fun _ hstate => ⟨hstate, hstate.1⟩) ?_
          fun _ hfail => hfail.1
        rintro info state ⟨⟨hinfo, hroom, hunvisited⟩, _, _, -, hinv⟩
        exact ⟨hinfo, hinv.mono (List.nil_subset _), hroom, hunvisited⟩
      have hroot := hverified.canonical.root_mem
      have hrootListed := hverified.root_listed hlisted
      have hnodup := hverified.canonical.refs_nodup hverified.holds hverified.valid
      have hrecord := @cacheChunk_complete blake3 tables source all hlimits reference
        (rangeInfo (levels + 1) range) hrootListed avoid
      rw [validateSubtree]
      refine Triple.bind (visitChunk_complete hlimits (List.mem_map_of_mem hrootListed) hroot
        fun hin => havoid reference hin hroot) fun _ => ?_
      refine Triple.get_bind fun state hready => ?_
      have hunvisited : ∀ item ∈ avoid, item ∉ state.visited :=
        fun item hitem => hready.2.2 item (List.mem_append_left _ hitem)
      cases hget : state.cache.get reference with
      | some info =>
          obtain ⟨levels', range', added', hcached, -⟩ :=
            hready.1.sound _ (ManifestValidationCache.mem_of_get hget)
          obtain ⟨hinfo, -⟩ := hcached.info_unique hverified
          have hdepth : info.maximumRelativeDepth < levels + 1 := by
            have hheight := hverified.canonical.height_lt
            have heq := congrArg ValidationInfo.maximumRelativeDepth hinfo
            simp only [rangeInfo] at heq
            omega
          refine Triple.ite (fun hdeep => absurd hdeep (by omega)) fun _ => ?_
          refine Triple.pure fun after heq => ?_
          rw [heq]
          exact ⟨hinfo, hready.2.1, hunvisited⟩
      | none =>
          by_cases hleaf : RangeIsLeaf manifestLeafTargetBytes range
          · obtain ⟨leaf, bytes, hload, hinfo⟩ := hverified.leaf_checked hleaf
            have hready' := hready.mono (List.subset_append_left avoid _)
            rw [hload]
            refine Triple.bind_ok ?_
            simp only [hinfo]
            refine Triple.bind_ok ?_
            exact hrecord.weaken (fun after heq => heq ▸ hready')
              (fun _ _ hpost => hpost) fun _ hfail => hfail
          · obtain ⟨hne, hlt, -⟩ := (canonical_node hleaf).mp hverified.canonical
            obtain ⟨built, bytes, hbuilt, rfl, hload, hnode⟩ := hverified.node_checked hleaf
            rw [List.map_append, List.nodup_append'] at hnodup
            have hloop := validateChildren_complete avoid ⟨rangePrefix range,
                rangeManifestChildren range (built.map Prod.fst)⟩ ih hverified.valid
              hverified.fit rfl
              (show rangeChildren range = [] ++ rangeChildren range from rfl)
              (NodeScan.start _) hbuilt hverified.holds.left hlisted.left hnodup.1
              fun item hitem hin => havoid item hitem (by
                rw [List.map_append]
                exact List.mem_append_left _ hin)
            rw [hload]
            refine Triple.bind_ok ?_
            simp only [hnode]
            refine Triple.bind_ok ?_
            refine Triple.bind (hloop.weaken (fun after heq => ?_)
              (fun _ _ hpost => hpost) fun _ hfail => hfail) fun progress => ?_
            · rw [heq]
              refine hready.mono (List.append_subset.mpr
                ⟨List.subset_append_left _ _, fun item hitem => ?_⟩)
              refine List.mem_append_right _ (List.mem_filter.mpr ⟨?_, ?_⟩)
              · rw [List.map_append]
                exact List.mem_append_left _ hitem
              · rw [decide_eq_true_iff]
                exact fun heq => hnodup.2.2 hitem (by simp [heq])
            refine Triple.of_pre (fun _ hpost => hpost.1) fun hscan => ?_
            have hinfo := NodeScan.finish_ok range hscan hne rfl hleaf hlt
            rw [List.nil_append, List.map_map] at hinfo
            simp only [hinfo]
            refine Triple.bind_ok ?_
            have hheight : radixHeight manifestLeafTargetBytes (levels + 1) range = _ :=
              radixHeight_node hleaf
            rw [rangeInfo, hheight] at hrecord
            rw [rangeInfo, hheight]
            exact hrecord.weaken (fun _ hpost => hpost.2) (fun _ _ hpost => hpost)
              fun _ hfail => hfail

end Hash

end CheckPo
