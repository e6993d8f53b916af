/-
The writer builds the canonical manifest and nothing else: a successful
`buildRange` is the canonical tree of its range, inserted into the chunk map,
and the canonical tree of a range is built whenever its chunks are consistent
with those already stored.
-/
import CheckPo.CanonicalManifest

namespace CheckPo

/-! The chunk map. -/

/-- No reference is stored twice. -/
def Chunks.NodupKeys (chunks : Chunks) : Prop := (chunks.map Prod.fst).Nodup

/-- A source gives every listed chunk back. -/
def Holds (source : ManifestRef → Option Bytes) (chunks : Chunks) : Prop :=
  ∀ chunk ∈ chunks, source chunk.1 = some chunk.2

theorem Chunks.mem_of_get {chunks : Chunks} {reference : ManifestRef}
    {bytes : Bytes} (h : Chunks.get chunks reference = some bytes) :
    (reference, bytes) ∈ chunks := by
  simp only [Chunks.get, Option.map_eq_some_iff] at h
  obtain ⟨chunk, hfind, rfl⟩ := h
  have hkey : chunk.1 = reference := by simpa using List.find?_some hfind
  rw [← hkey]
  exact List.mem_of_find?_eq_some hfind

theorem Chunks.get_eq_none_iff {chunks : Chunks} {reference : ManifestRef} :
    Chunks.get chunks reference = none ↔ reference ∉ chunks.map Prod.fst := by
  simp only [Chunks.get, Option.map_eq_none_iff, List.find?_eq_none, beq_iff_eq,
    List.mem_map, not_exists, not_and]

theorem Chunks.NodupKeys.holds {chunks : Chunks} (h : Chunks.NodupKeys chunks) :
    Holds (Chunks.get chunks) chunks := by
  intro chunk hchunk
  cases hget : Chunks.get chunks chunk.1 with
  | none =>
      exact absurd (List.mem_map_of_mem hchunk) (Chunks.get_eq_none_iff.mp hget)
  | some bytes =>
      have hmem := Chunks.mem_of_get hget
      have hinj := List.inj_on_of_nodup_map h hmem hchunk rfl
      rw [← hinj]

section Hash

variable {blake3 : Bytes → Digest32} {target : Nat}

/-- The reference under which a chunk of this kind is stored. -/
def storedRef (blake3 : Bytes → Digest32) : ChunkKind → Bytes → ManifestRef
  | .node, bytes => nodeRef blake3 bytes
  | _, bytes => leafRef blake3 bytes

/-- What inserting a chunk does: nothing when it is there, an error when other
bytes are, else it is added. -/
theorem insertChunk_eq_ok {kind : ChunkKind} (hkind : kind ≠ .root) {bytes : Bytes}
    {chunks : Chunks} {result : ManifestRef × Chunks} :
    insertChunk blake3 kind bytes chunks = .ok result ↔
      result.1 = storedRef blake3 kind bytes ∧
      ((Chunks.get chunks result.1 = some bytes ∧ result.2 = chunks) ∨
        (Chunks.get chunks result.1 = none ∧
          result.2 = chunks ++ [(result.1, bytes)])) := by
  have hid : ∃ id, manifestId blake3 kind bytes = .ok id ∧
      ManifestRef.new kind id = .ok (storedRef blake3 kind bytes) := by
    cases kind with
    | root => exact absurd rfl hkind
    | node => exact ⟨_, rfl, rfl⟩
    | leaf => exact ⟨_, rfl, rfl⟩
  obtain ⟨id, hid, hnew⟩ := hid
  simp only [insertChunk, except_bind_eq_ok, liftM_codec_eq_ok, hid, hnew,
    Except.ok.injEq, exists_eq_left']
  obtain ⟨reference, chunks'⟩ := result
  cases hget : Chunks.get chunks (storedRef blake3 kind bytes) with
  | none =>
      simp only [except_pure_eq_ok, Prod.mk.injEq]
      constructor
      · rintro ⟨rfl, rfl⟩
        exact ⟨rfl, Or.inr ⟨hget, rfl⟩⟩
      · rintro ⟨rfl, ⟨hsome, -⟩ | ⟨-, rfl⟩⟩
        · rw [hget] at hsome
          cases hsome
        · exact ⟨rfl, rfl⟩
  | some existing =>
      simp only [except_guard_eq_ok, ne_eq, not_not, except_pure_eq_ok,
        Prod.mk.injEq]
      constructor
      · rintro ⟨rfl, rfl, rfl⟩
        exact ⟨rfl, Or.inl ⟨hget, rfl⟩⟩
      · rintro ⟨rfl, ⟨hsome, rfl⟩ | ⟨hnone, -⟩⟩
        · rw [hget] at hsome
          exact ⟨Option.some.inj hsome, rfl, rfl⟩
        · rw [hget] at hnone
          cases hnone

/-- The chunks after inserting `added` into `before`. -/
structure Extends (before added after : Chunks) : Prop where
  nodup : Chunks.NodupKeys before → Chunks.NodupKeys after
  mem : ∀ chunk, chunk ∈ after ↔ chunk ∈ before ∨ chunk ∈ added

theorem Extends.refl (chunks : Chunks) : Extends chunks [] chunks :=
  ⟨id, by simp⟩

theorem Extends.trans {first second third added added' : Chunks}
    (h : Extends first added second) (h' : Extends second added' third) :
    Extends first (added ++ added') third :=
  ⟨fun hnodup => h'.nodup (h.nodup hnodup), fun chunk => by
    rw [h'.mem, h.mem, List.mem_append, or_assoc]⟩

theorem Extends.holds {source : ManifestRef → Option Bytes}
    {before added after : Chunks} (h : Extends before added after)
    (hbefore : Holds source before) (hadded : Holds source added) :
    Holds source after := by
  intro chunk hchunk
  rcases (h.mem chunk).mp hchunk with hchunk | hchunk
  · exact hbefore chunk hchunk
  · exact hadded chunk hchunk

theorem insertChunk_extends {kind : ChunkKind} (hkind : kind ≠ .root)
    {bytes : Bytes} {chunks : Chunks} {result : ManifestRef × Chunks}
    (h : insertChunk blake3 kind bytes chunks = .ok result) :
    result.1 = storedRef blake3 kind bytes ∧
      Extends chunks [(result.1, bytes)] result.2 := by
  obtain ⟨href, ⟨hget, hchunks⟩ | ⟨hget, hchunks⟩⟩ := (insertChunk_eq_ok hkind).mp h
  · refine ⟨href, ?_⟩
    rw [hchunks]
    refine ⟨id, fun chunk => ?_⟩
    rw [List.mem_singleton]
    constructor
    · exact Or.inl
    · rintro (hchunk | rfl)
      · exact hchunk
      · exact Chunks.mem_of_get hget
  · refine ⟨href, ?_⟩
    rw [hchunks]
    refine ⟨fun hnodup => ?_, fun chunk => by rw [List.mem_append]⟩
    rw [Chunks.NodupKeys, List.map_append, List.map_singleton]
    apply List.Nodup.append hnodup (List.nodup_singleton _)
    rw [List.disjoint_singleton]
    exact Chunks.get_eq_none_iff.mp hget

theorem insertChunk_of_holds (kind : ChunkKind) (hkind : kind ≠ .root)
    {source : ManifestRef → Option Bytes} {bytes : Bytes} {chunks : Chunks}
    (hchunks : Holds source chunks)
    (hbytes : source (storedRef blake3 kind bytes) = some bytes) :
    ∃ chunks', insertChunk blake3 kind bytes chunks =
      .ok (storedRef blake3 kind bytes, chunks') := by
  cases hget : Chunks.get chunks (storedRef blake3 kind bytes) with
  | none =>
      exact ⟨chunks ++ [(storedRef blake3 kind bytes, bytes)],
        (insertChunk_eq_ok hkind).mpr ⟨rfl, Or.inr ⟨hget, rfl⟩⟩⟩
  | some existing =>
      have hexisting := hchunks _ (Chunks.mem_of_get hget)
      rw [hbytes, Option.some.injEq] at hexisting
      exact ⟨chunks, (insertChunk_eq_ok hkind).mpr
        ⟨rfl, Or.inl ⟨by rw [hget, hexisting], rfl⟩⟩⟩

/-! Ranges. -/

theorem first_last_of_cons (first : KeyedEntry) (rest : List KeyedEntry) :
    firstKey (first :: rest) = first.key ∧
      lastKey (first :: rest) = ((first :: rest).getLastD first).key := by
  refine ⟨rfl, ?_⟩
  rw [lastKey, List.getLast?_eq_some_getLast (by simp), List.getLastD_eq_getLast?,
    List.getLast?_eq_some_getLast (by simp)]
  rfl

/-- What the running totals passed down are: those of a list of entries in
which the range begins at `start`. -/
structure RangeAt (prefixes : List ManifestSummary) (start : Nat)
    (range : List KeyedEntry) : Prop where
  split : ∃ front back, TotalsFit (front ++ (range ++ back)) ∧
    prefixes = (front ++ (range ++ back)).inits.map totals ∧ start = front.length

namespace RangeAt

variable {prefixes : List ManifestSummary} {start : Nat} {range : List KeyedEntry}

theorem fit (h : RangeAt prefixes start range) : TotalsFit range := by
  obtain ⟨front, back, hfit, -, -⟩ := h.split
  exact hfit.right.left

theorem rangeSummary (h : RangeAt prefixes start range) :
    CheckPo.rangeSummary prefixes start (start + range.length) =
      .ok (totals range) := by
  obtain ⟨front, back, hfit, rfl, rfl⟩ := h.split
  exact rangeSummary_eq_totals hfit

theorem left {left right : List KeyedEntry}
    (h : RangeAt prefixes start (left ++ right)) : RangeAt prefixes start left := by
  obtain ⟨front, back, hfit, rfl, rfl⟩ := h.split
  exact ⟨front, right ++ back, by simpa using hfit, by simp, rfl⟩

theorem right {left right : List KeyedEntry}
    (h : RangeAt prefixes start (left ++ right)) :
    RangeAt prefixes (start + left.length) right := by
  obtain ⟨front, back, hfit, rfl, rfl⟩ := h.split
  exact ⟨front ++ left, back, by simpa using hfit, by simp, by simp⟩

end RangeAt

theorem edgeOf_head (prefixLen : Nat) (range : List KeyedEntry) :
    rangeEdge prefixLen range = edgeAt (firstKey range) prefixLen := rfl

theorem exists_and_eq_left {α : Type} {p : Prop} {value : α} {q : α → Prop} :
    (∃ middle, (p ∧ value = middle) ∧ q middle) ↔ p ∧ q value := by
  constructor
  · rintro ⟨_, ⟨hp, rfl⟩, hq⟩
    exact ⟨hp, hq⟩
  · rintro ⟨hp, hq⟩
    exact ⟨value, ⟨hp, rfl⟩, hq⟩

/-- The steps of `buildRange` on a nonempty range, with its totals and prefix
written as functions of the range. -/
theorem buildRange_succ {prefixes : List ManifestSummary} {levels start : Nat}
    {range : List KeyedEntry} {chunks : Chunks} (hne : range ≠ [])
    (hat : RangeAt prefixes start range) {result : BuiltRange × Chunks} :
    buildRange blake3 prefixes target (levels + 1) start range chunks = .ok result ↔
      leafLen (rangePrefix range) range < 2 ^ 64 ∧
      if RangeIsLeaf target range then
        ∃ bytes, encodeLeaf ⟨rangePrefix range, range.map KeyedEntry.entry⟩ =
            .ok bytes ∧
          ∃ inserted, insertChunk blake3 .leaf bytes chunks = .ok inserted ∧
            (⟨inserted.1, totals range⟩, inserted.2) = result
      else ∃ children, buildChildren (buildRange blake3 prefixes target levels)
            (rangePrefixLen range) start (rangeChildren range) chunks = .ok children ∧
          2 ≤ children.1.length ∧
          ∃ bytes, encodeNode ⟨rangePrefix range, children.1⟩ = .ok bytes ∧
          ∃ inserted, insertChunk blake3 .node bytes children.2 = .ok inserted ∧
            (⟨inserted.1, totals range⟩, inserted.2) = result := by
  obtain ⟨first, rest, rfl⟩ := List.exists_cons_of_ne_nil hne
  obtain ⟨hfirst, hlast⟩ := first_last_of_cons first rest
  have hprefixLen : commonPrefixLen first.key
      ((first :: rest).getLastD first).key = rangePrefixLen (first :: rest) := by
    rw [rangePrefixLen, hfirst, hlast]
  have hcommon : first.key.take (rangePrefixLen (first :: rest)) =
      rangePrefix (first :: rest) := by
    rw [rangePrefix, hfirst]
  simp only [buildRange, List.head?_cons, orError, except_bind_ok,
    hat.rangeSummary, hprefixLen, hcommon, except_bind_eq_ok,
    leafEncodedLen_eq_ok hat.fit]
  rw [exists_and_eq_left]
  by_cases hleaf : leafLen (rangePrefix (first :: rest)) (first :: rest) ≤ target ∨
      (first :: rest).length = 1
  · rw [if_pos hleaf, if_pos (show RangeIsLeaf target (first :: rest) from hleaf)]
    simp only [except_bind_eq_ok, liftM_codec_eq_ok, except_pure_eq_ok]
  · rw [if_neg hleaf, if_neg (show ¬ RangeIsLeaf target (first :: rest) from hleaf)]
    simp only [except_bind_eq_ok, liftM_codec_eq_ok, except_pure_eq_ok,
      except_guard_eq_ok, not_lt, rangeChildren]

/-- What a call of `buildRange` returns for its range. -/
def BuildsCanonical (blake3 : Bytes → Digest32) (target levels : Nat)
    (range : List KeyedEntry) (chunks : Chunks) (result : BuiltRange × Chunks) : Prop :=
  ∃ added, Canonical blake3 target levels range result.1.reference added ∧
    result.1.summary = totals range ∧ Extends chunks added result.2

theorem buildChildren_canonical
    {build : Nat → List KeyedEntry → Chunks → SnapshotV2Result (BuiltRange × Chunks)}
    {prefixes : List ManifestSummary} {levels : Nat}
    (hbuild : ∀ {start range chunks result}, range ≠ [] →
      RangeAt prefixes start range → build start range chunks = .ok result →
      BuildsCanonical blake3 target levels range chunks result)
    {prefixLen start : Nat} {ranges : List (List KeyedEntry)} {chunks : Chunks}
    {result : List ManifestChild × Chunks} (hne : ∀ range ∈ ranges, range ≠ [])
    (hat : RangeAt prefixes start ranges.flatten)
    (h : buildChildren build prefixLen start ranges chunks = .ok result) :
    ∃ built : List (ManifestRef × Chunks),
      List.Forall₂ (fun child chunk =>
        Canonical blake3 target levels child chunk.1 chunk.2) ranges built ∧
      result.1 = List.zipWith (fun child reference =>
        ⟨rangeEdge prefixLen child, reference, totals child⟩) ranges
          (built.map Prod.fst) ∧
      Extends chunks (built.map Prod.snd).flatten result.2 := by
  induction ranges generalizing start chunks result with
  | nil =>
      simp only [buildChildren, Except.ok.injEq] at h
      subst h
      exact ⟨[], .nil, rfl, Extends.refl chunks⟩
  | cons range ranges ih =>
      simp only [buildChildren, except_bind_eq_ok, except_pure_eq_ok] at h
      obtain ⟨child, hchild, children, hchildren, rfl⟩ := h
      rw [List.flatten_cons] at hat
      obtain ⟨added, hcanonical, hsummary, hextends⟩ :=
        hbuild (hne range List.mem_cons_self) hat.left hchild
      obtain ⟨built, hbuilt, hzip, hrest⟩ := ih
        (fun range hrange => hne range (List.mem_cons_of_mem _ hrange)) hat.right
        hchildren
      refine ⟨(child.1.reference, added) :: built, .cons hcanonical hbuilt, ?_, ?_⟩
      · rw [hzip, hsummary]
        rfl
      · exact hextends.trans hrest

/-- A range is built as its canonical tree. -/
theorem buildRange_canonical {prefixes : List ManifestSummary} {levels start : Nat}
    {range : List KeyedEntry} {chunks : Chunks} {result : BuiltRange × Chunks}
    (hne : range ≠ []) (hat : RangeAt prefixes start range)
    (h : buildRange blake3 prefixes target levels start range chunks = .ok result) :
    BuildsCanonical blake3 target levels range chunks result := by
  induction levels generalizing start range chunks result with
  | zero => cases h
  | succ levels ih =>
      obtain ⟨hlt, h⟩ := (buildRange_succ hne hat).mp h
      by_cases hleaf : RangeIsLeaf target range
      · rw [if_pos hleaf] at h
        obtain ⟨bytes, hbytes, inserted, hinsert, rfl⟩ := h
        obtain ⟨href, hextends⟩ := insertChunk_extends (by decide) hinsert
        refine ⟨[(inserted.1, bytes)], ?_, rfl, hextends⟩
        exact (canonical_leaf hleaf).mpr ⟨hne, hlt, bytes, hbytes, href, rfl⟩
      · rw [if_neg hleaf] at h
        obtain ⟨children, hchildren, hsplit, bytes, hbytes, inserted, hinsert, rfl⟩ := h
        obtain ⟨href, hextends⟩ := insertChunk_extends (by decide) hinsert
        obtain ⟨built, hbuilt, hzip, hbelow⟩ := buildChildren_canonical ih
          (rangeChildren_ne_nil range) (by rwa [rangeChildren_flatten]) hchildren
        have hlength : (rangeChildren range).length = children.1.length := by
          rw [hzip, List.length_zipWith, List.length_map, ← hbuilt.length_eq, min_self]
        refine ⟨(built.map Prod.snd).flatten ++ [(inserted.1, bytes)], ?_, rfl,
          hbelow.trans hextends⟩
        refine (canonical_node hleaf).mpr ⟨hne, hlt, hlength ▸ hsplit, built, hbuilt,
          bytes, ?_, href, rfl⟩
        rw [rangeManifestChildren, ← hzip]
        exact hbytes

theorem buildChildren_of_canonical (prefixLen : Nat)
    {build : Nat → List KeyedEntry → Chunks → SnapshotV2Result (BuiltRange × Chunks)}
    {prefixes : List ManifestSummary} {levels : Nat}
    {source : ManifestRef → Option Bytes}
    (hbuild : ∀ {start range chunks reference added}, RangeAt prefixes start range →
      Holds source chunks → Holds source added →
      Canonical blake3 target levels range reference added →
      ∃ after, build start range chunks = .ok (⟨reference, totals range⟩, after) ∧
        Holds source after)
    {start : Nat} {ranges : List (List KeyedEntry)} {chunks : Chunks}
    {built : List (ManifestRef × Chunks)}
    (hat : RangeAt prefixes start ranges.flatten) (hchunks : Holds source chunks)
    (hadded : Holds source (built.map Prod.snd).flatten)
    (hbuilt : List.Forall₂ (fun child chunk =>
      Canonical blake3 target levels child chunk.1 chunk.2) ranges built) :
    ∃ after, buildChildren build prefixLen start ranges chunks =
      .ok (List.zipWith (fun child reference =>
        ⟨rangeEdge prefixLen child, reference, totals child⟩) ranges
          (built.map Prod.fst), after) ∧ Holds source after := by
  induction hbuilt generalizing start chunks with
  | nil => exact ⟨chunks, rfl, hchunks⟩
  | @cons range chunk ranges built hhead _ ih =>
      rw [List.flatten_cons] at hat
      rw [List.map_cons, List.flatten_cons] at hadded
      obtain ⟨middle, hmiddle, hmiddleHolds⟩ := hbuild hat.left hchunks
        (fun item hitem => hadded item (List.mem_append_left _ hitem)) hhead
      obtain ⟨after, hafter, hafterHolds⟩ := ih hat.right hmiddleHolds
        (fun item hitem => hadded item (List.mem_append_right _ hitem))
      refine ⟨after, ?_, hafterHolds⟩
      simp only [buildChildren, hmiddle, except_bind_ok, hafter]
      rfl

/-- A canonical tree whose chunks agree with the stored ones is built. -/
theorem buildRange_of_canonical {prefixes : List ManifestSummary}
    {levels start : Nat} {range : List KeyedEntry} {chunks added : Chunks}
    {reference : ManifestRef} {source : ManifestRef → Option Bytes}
    (hat : RangeAt prefixes start range) (hchunks : Holds source chunks)
    (hadded : Holds source added)
    (h : Canonical blake3 target levels range reference added) :
    ∃ after, buildRange blake3 prefixes target levels start range chunks =
      .ok (⟨reference, totals range⟩, after) ∧ Holds source after := by
  induction levels generalizing start range chunks added reference with
  | zero => exact h.elim
  | succ levels ih =>
      have hne := h.ne_nil
      suffices hok : ∃ after, buildRange blake3 prefixes target (levels + 1) start
          range chunks = .ok (⟨reference, totals range⟩, after) by
        obtain ⟨after, hafter⟩ := hok
        obtain ⟨added', hcanonical, -, hextends⟩ :=
          buildRange_canonical hne hat hafter
        obtain ⟨-, rfl⟩ := h.unique hcanonical
        exact ⟨after, hafter, hextends.holds hchunks hadded⟩
      by_cases hleaf : RangeIsLeaf target range
      · obtain ⟨-, hlt, bytes, hbytes, rfl, rfl⟩ := (canonical_leaf hleaf).mp h
        obtain ⟨after, hinsert⟩ := insertChunk_of_holds .leaf (by decide)
          hchunks (hadded _ List.mem_cons_self)
        refine ⟨after, (buildRange_succ hne hat).mpr ⟨hlt, ?_⟩⟩
        rw [if_pos hleaf]
        exact ⟨bytes, hbytes, _, hinsert, rfl⟩
      · obtain ⟨-, hlt, hsplit, built, hbuilt, bytes, hbytes, rfl, rfl⟩ :=
          (canonical_node hleaf).mp h
        obtain ⟨below, hbelow, hbelowHolds⟩ := buildChildren_of_canonical
          (rangePrefixLen range) ih (by rwa [rangeChildren_flatten]) hchunks (fun item hitem => hadded item (List.mem_append_left _ hitem)) hbuilt
        obtain ⟨after, hinsert⟩ := insertChunk_of_holds .node (by decide)
          hbelowHolds (hadded (nodeRef blake3 bytes, bytes) (by simp))
        refine ⟨after, (buildRange_succ hne hat).mpr ⟨hlt, ?_⟩⟩
        rw [if_neg hleaf]
        refine ⟨_, hbelow, ?_, bytes, hbytes, _, hinsert, rfl⟩
        rw [List.length_zipWith, List.length_map, ← hbuilt.length_eq, min_self]
        exact hsplit

end Hash

end CheckPo
