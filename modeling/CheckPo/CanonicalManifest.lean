/-
What the manifest of a range of entries is: the abstract compressed-radix tree,
stated without a chunk map, a cache or a visiting order.  `Canonical` relates a
range to the reference of its chunk and to all chunks below it, children first.
The writer builds it, the validator accepts nothing else, and iteration reads
its entries back.
-/
import CheckPo.ManifestTotals

namespace CheckPo

def firstKey (range : List KeyedEntry) : Bytes :=
  (range.head?.map KeyedEntry.key).getD []

def lastKey (range : List KeyedEntry) : Bytes :=
  (range.getLast?.map KeyedEntry.key).getD []

def rangePrefixLen (range : List KeyedEntry) : Nat :=
  commonPrefixLen (firstKey range) (lastKey range)

/-- The longest common prefix of a sorted range. -/
def rangePrefix (range : List KeyedEntry) : Bytes :=
  (firstKey range).take (rangePrefixLen range)

def rangeChildren (range : List KeyedEntry) : List (List KeyedEntry) :=
  splitChildren (rangePrefixLen range) range

/-- A range is stored in one leaf when that leaf is small enough, or when it
cannot be split. -/
def RangeIsLeaf (target : Nat) (range : List KeyedEntry) : Prop :=
  leafLen (rangePrefix range) range ≤ target ∨ range.length = 1

instance (target : Nat) (range : List KeyedEntry) :
    Decidable (RangeIsLeaf target range) :=
  inferInstanceAs (Decidable (_ ∨ _))

theorem rangeChildren_flatten (range : List KeyedEntry) :
    (rangeChildren range).flatten = range :=
  splitChildren_flatten (rangePrefixLen range) range

theorem rangeChildren_ne_nil (range : List KeyedEntry) :
    ∀ child ∈ rangeChildren range, child ≠ [] :=
  fun _ hchild => splitChildren_ne_nil hchild

theorem rangeChildren_within {range child : List KeyedEntry}
    (hchild : child ∈ rangeChildren range) : child <:+: range := by
  obtain ⟨front, back, hsplit⟩ := List.append_of_mem hchild
  refine ⟨front.flatten, back.flatten, ?_⟩
  rw [← rangeChildren_flatten range, hsplit]
  simp

/-- The children a node over `range` lists for the given references. -/
def rangeManifestChildren (range : List KeyedEntry) (references : List ManifestRef) :
    List ManifestChild :=
  List.zipWith (fun child reference =>
    ⟨rangeEdge (rangePrefixLen range) child, reference, totals child⟩)
    (rangeChildren range) references

@[simp] theorem length_rangePrefix (range : List KeyedEntry) :
    (rangePrefix range).length = rangePrefixLen range := by
  rw [rangePrefix, List.length_take]
  exact min_eq_left (commonPrefixLen_le_left _ _)

section Hash

variable (blake3 : Bytes → Digest32)

def leafRef (bytes : Bytes) : ManifestRef :=
  ⟨.leaf, domainHash blake3 leafHashDomain bytes⟩

def nodeRef (bytes : Bytes) : ManifestRef :=
  ⟨.node, domainHash blake3 nodeHashDomain bytes⟩

/-- The chunk of a range and the chunks below it, with at most `levels` levels. -/
def Canonical (target : Nat) :
    Nat → List KeyedEntry → ManifestRef → Chunks → Prop
  | 0, _, _, _ => False
  | levels + 1, range, reference, chunks =>
      range ≠ [] ∧ leafLen (rangePrefix range) range < 2 ^ 64 ∧
      if RangeIsLeaf target range then
        ∃ bytes, encodeLeaf ⟨rangePrefix range, range.map KeyedEntry.entry⟩ =
            .ok bytes ∧
          reference = leafRef blake3 bytes ∧ chunks = [(reference, bytes)]
      else 2 ≤ (rangeChildren range).length ∧
        ∃ built : List (ManifestRef × Chunks),
          List.Forall₂ (fun child chunk =>
            Canonical target levels child chunk.1 chunk.2) (rangeChildren range) built ∧
          ∃ bytes, encodeNode ⟨rangePrefix range,
              rangeManifestChildren range (built.map Prod.fst)⟩ = .ok bytes ∧
            reference = nodeRef blake3 bytes ∧
            chunks = (built.map Prod.snd).flatten ++ [(reference, bytes)]

/-- The number of node levels above the deepest leaf. -/
def radixHeight (target : Nat) : Nat → List KeyedEntry → Nat
  | 0, _ => 0
  | levels + 1, range =>
      if RangeIsLeaf target range then 0
      else ((rangeChildren range).map fun child =>
        radixHeight target levels child + 1).foldr max 0

/-- The ranges of the tree, children first. -/
def radixRanges (target : Nat) : Nat → List KeyedEntry → List (List KeyedEntry)
  | 0, _ => []
  | levels + 1, range =>
      if RangeIsLeaf target range then [range]
      else (rangeChildren range).flatMap (radixRanges target levels) ++ [range]

variable {blake3} {target : Nat}

theorem Canonical.ne_nil {levels : Nat} {range : List KeyedEntry}
    {reference : ManifestRef} {chunks : Chunks}
    (h : Canonical blake3 target levels range reference chunks) : range ≠ [] := by
  cases levels with
  | zero => exact h.elim
  | succ levels => exact h.1

theorem canonical_leaf {levels : Nat} {range : List KeyedEntry}
    {reference : ManifestRef} {chunks : Chunks} (hleaf : RangeIsLeaf target range) :
    Canonical blake3 target (levels + 1) range reference chunks ↔
      range ≠ [] ∧ leafLen (rangePrefix range) range < 2 ^ 64 ∧
      ∃ bytes, encodeLeaf ⟨rangePrefix range, range.map KeyedEntry.entry⟩ =
          .ok bytes ∧
        reference = leafRef blake3 bytes ∧ chunks = [(reference, bytes)] := by
  rw [Canonical, if_pos hleaf]

theorem canonical_node {levels : Nat} {range : List KeyedEntry}
    {reference : ManifestRef} {chunks : Chunks} (hleaf : ¬ RangeIsLeaf target range) :
    Canonical blake3 target (levels + 1) range reference chunks ↔
      range ≠ [] ∧ leafLen (rangePrefix range) range < 2 ^ 64 ∧
      2 ≤ (rangeChildren range).length ∧
      ∃ built : List (ManifestRef × Chunks),
        List.Forall₂ (fun child chunk =>
          Canonical blake3 target levels child chunk.1 chunk.2)
          (rangeChildren range) built ∧
        ∃ bytes, encodeNode ⟨rangePrefix range,
            rangeManifestChildren range (built.map Prod.fst)⟩ = .ok bytes ∧
          reference = nodeRef blake3 bytes ∧
          chunks = (built.map Prod.snd).flatten ++ [(reference, bytes)] := by
  rw [Canonical, if_neg hleaf]

theorem forall₂_mem_left {α β : Type} {R : α → β → Prop} {lefts : List α}
    {rights : List β} (h : List.Forall₂ R lefts rights) {left : α}
    (hleft : left ∈ lefts) : ∃ right ∈ rights, R left right := by
  induction h with
  | nil => simp at hleft
  | cons hhead _ ih =>
      rw [List.mem_cons] at hleft
      rcases hleft with rfl | hleft
      · exact ⟨_, List.mem_cons_self, hhead⟩
      · obtain ⟨right, hright, hR⟩ := ih hleft
        exact ⟨right, List.mem_cons_of_mem _ hright, hR⟩

theorem forall₂_mem_right {α β : Type} {R : α → β → Prop} {lefts : List α}
    {rights : List β} (h : List.Forall₂ R lefts rights) {right : β}
    (hright : right ∈ rights) : ∃ left ∈ lefts, R left right := by
  obtain ⟨left, hleft, hR⟩ := forall₂_mem_left h.flip hright
  exact ⟨left, hleft, hR⟩

theorem forall₂_imp_mem {α β : Type} {R S : α → β → Prop} {lefts : List α}
    {rights : List β} (h : List.Forall₂ R lefts rights)
    (himp : ∀ left ∈ lefts, ∀ right ∈ rights, R left right → S left right) :
    List.Forall₂ S lefts rights := by
  induction h with
  | nil => exact .nil
  | cons hhead _ ih =>
      exact .cons (himp _ List.mem_cons_self _ List.mem_cons_self hhead)
        (ih fun left hleft right hright =>
          himp left (List.mem_cons_of_mem _ hleft) right
            (List.mem_cons_of_mem _ hright))

/-- A range and its levels determine its reference and its chunks. -/
theorem Canonical.unique {levels : Nat} {range : List KeyedEntry}
    {left right : ManifestRef} {leftChunks rightChunks : Chunks}
    (hleft : Canonical blake3 target levels range left leftChunks)
    (hright : Canonical blake3 target levels range right rightChunks) :
    left = right ∧ leftChunks = rightChunks := by
  induction levels generalizing range left right leftChunks rightChunks with
  | zero => exact hleft.elim
  | succ levels ih =>
      by_cases hleaf : RangeIsLeaf target range
      · obtain ⟨-, -, bytes, hbytes, rfl, rfl⟩ := (canonical_leaf hleaf).mp hleft
        obtain ⟨-, -, bytes', hbytes', rfl, rfl⟩ := (canonical_leaf hleaf).mp hright
        cases hbytes.symm.trans hbytes'
        exact ⟨rfl, rfl⟩
      · obtain ⟨-, -, -, built, hbuilt, bytes, hbytes, rfl, rfl⟩ :=
          (canonical_node hleaf).mp hleft
        obtain ⟨-, -, -, built', hbuilt', bytes', hbytes', rfl, rfl⟩ :=
          (canonical_node hleaf).mp hright
        have heq : built = built' := by
          clear hbytes hbytes' hleft hright
          generalize rangeChildren range = children at hbuilt hbuilt'
          induction hbuilt generalizing built' with
          | nil => cases hbuilt'; rfl
          | cons hhead _ ihTail =>
              obtain ⟨head', tail', hhead', htail', rfl⟩ :=
                List.forall₂_cons_left_iff.mp hbuilt'
              obtain ⟨href, hchunks⟩ := ih hhead hhead'
              rw [Prod.ext href hchunks, ihTail tail' htail']
        subst heq
        cases hbytes.symm.trans hbytes'
        exact ⟨rfl, rfl⟩

/-- More levels than needed change nothing. -/
theorem Canonical.mono {levels more : Nat} (hle : levels ≤ more)
    {range : List KeyedEntry} {reference : ManifestRef} {chunks : Chunks}
    (h : Canonical blake3 target levels range reference chunks) :
    Canonical blake3 target more range reference chunks := by
  induction levels generalizing more range reference chunks with
  | zero => exact h.elim
  | succ levels ih =>
      obtain ⟨more, rfl⟩ : ∃ m, more = m + 1 := ⟨more - 1, by omega⟩
      by_cases hleaf : RangeIsLeaf target range
      · rwa [canonical_leaf hleaf] at h ⊢
      · rw [canonical_node hleaf] at h ⊢
        obtain ⟨hne, hlen, hsplit, built, hbuilt, hrest⟩ := h
        exact ⟨hne, hlen, hsplit, built,
          hbuilt.imp fun _ _ hchild => ih (by omega) hchild, hrest⟩

theorem radixHeight_node {levels : Nat} {range : List KeyedEntry}
    (hleaf : ¬ RangeIsLeaf target range) :
    radixHeight target (levels + 1) range = ((rangeChildren range).map fun child =>
      radixHeight target levels child + 1).foldr max 0 := by
  rw [radixHeight, if_neg hleaf]

theorem foldr_max_le_iff {values : List Nat} {bound : Nat} :
    values.foldr max 0 ≤ bound ↔ ∀ value ∈ values, value ≤ bound := by
  induction values with
  | nil => simp
  | cons head tail ih => simp [ih]

theorem Canonical.height_lt {levels : Nat} {range : List KeyedEntry}
    {reference : ManifestRef} {chunks : Chunks}
    (h : Canonical blake3 target levels range reference chunks) :
    radixHeight target levels range < levels := by
  induction levels generalizing range reference chunks with
  | zero => exact h.elim
  | succ levels ih =>
      by_cases hleaf : RangeIsLeaf target range
      · simp [radixHeight, hleaf]
      · obtain ⟨-, -, -, built, hbuilt, -⟩ := (canonical_node hleaf).mp h
        rw [radixHeight_node hleaf, Nat.lt_succ_iff, foldr_max_le_iff]
        intro height hheight
        obtain ⟨child, hchild, rfl⟩ := List.mem_map.mp hheight
        obtain ⟨chunk, -, hcanonical⟩ := forall₂_mem_left hbuilt hchild
        exact ih hcanonical

/-- The height does not depend on the levels allowed. -/
theorem Canonical.height_eq {levels more : Nat} {range : List KeyedEntry}
    {reference reference' : ManifestRef} {chunks chunks' : Chunks}
    (h : Canonical blake3 target levels range reference chunks)
    (h' : Canonical blake3 target more range reference' chunks') :
    radixHeight target levels range = radixHeight target more range := by
  induction levels generalizing more range reference reference' chunks chunks' with
  | zero => exact h.elim
  | succ levels ih =>
      cases more with
      | zero => exact h'.elim
      | succ more =>
          by_cases hleaf : RangeIsLeaf target range
          · simp [radixHeight, hleaf]
          · obtain ⟨-, -, -, built, hbuilt, -⟩ := (canonical_node hleaf).mp h
            obtain ⟨-, -, -, built', hbuilt', -⟩ := (canonical_node hleaf).mp h'
            rw [radixHeight_node hleaf, radixHeight_node hleaf]
            congr 1
            apply List.map_congr_left
            intro child hchild
            obtain ⟨_, -, hcanonical⟩ := forall₂_mem_left hbuilt hchild
            obtain ⟨_, -, hcanonical'⟩ := forall₂_mem_left hbuilt' hchild
            rw [ih hcanonical hcanonical']

/-- A tree whose height is below the levels left fits into them. -/
theorem Canonical.of_height_lt {levels fewer : Nat} {range : List KeyedEntry}
    {reference : ManifestRef} {chunks : Chunks}
    (h : Canonical blake3 target levels range reference chunks)
    (hheight : radixHeight target levels range < fewer) :
    Canonical blake3 target fewer range reference chunks := by
  induction levels generalizing fewer range reference chunks with
  | zero => exact h.elim
  | succ levels ih =>
      obtain ⟨fewer, rfl⟩ : ∃ m, fewer = m + 1 := ⟨fewer - 1, by omega⟩
      by_cases hleaf : RangeIsLeaf target range
      · rwa [canonical_leaf hleaf] at h ⊢
      · rw [radixHeight_node hleaf, Nat.lt_succ_iff, foldr_max_le_iff] at hheight
        rw [canonical_node hleaf] at h ⊢
        obtain ⟨hne, hlen, hsplit, built, hbuilt, hrest⟩ := h
        refine ⟨hne, hlen, hsplit, built, ?_, hrest⟩
        refine forall₂_imp_mem hbuilt fun child hchild chunk _ hcanonical => ?_
        exact ih hcanonical (hheight _ (List.mem_map_of_mem hchild))

/-- The chunks of a range, one for each of its ranges in the same order. -/
theorem Canonical.chunks_ranges {levels : Nat} {range : List KeyedEntry}
    {reference : ManifestRef} {chunks : Chunks}
    (h : Canonical blake3 target levels range reference chunks) :
    List.Forall₂ (fun chunk part => ∃ below,
        Canonical blake3 target levels part chunk.1 below ∧ chunk ∈ below ∧
          below ⊆ chunks ∧ part <:+: range)
      chunks (radixRanges target levels range) := by
  induction levels generalizing range reference chunks with
  | zero => exact h.elim
  | succ levels ih =>
      by_cases hleaf : RangeIsLeaf target range
      · obtain ⟨-, -, bytes, -, -, rfl⟩ := (canonical_leaf hleaf).mp h
        rw [radixRanges, if_pos hleaf]
        exact .cons ⟨_, h, List.mem_cons_self, List.Subset.refl _,
          List.infix_refl _⟩ .nil
      · obtain ⟨-, -, -, built, hbuilt, bytes, -, -, rfl⟩ :=
          (canonical_node hleaf).mp h
        rw [radixRanges, if_neg hleaf]
        apply List.rel_append
        · rw [List.flatMap]
          have hsub : ∀ chunk ∈ built, chunk.2 ⊆
              (built.map Prod.snd).flatten ++ [(reference, bytes)] := by
            intro chunk hchunk item hitem
            exact List.mem_append_left _ (List.mem_flatten.mpr
              ⟨chunk.2, List.mem_map_of_mem hchunk, hitem⟩)
          have hpart : ∀ child ∈ rangeChildren range, child <:+: range :=
            fun child hchild => rangeChildren_within hchild
          generalize (built.map Prod.snd).flatten ++ [(reference, bytes)] = all at hsub
          generalize rangeChildren range = children at hbuilt hpart
          clear h
          induction hbuilt with
          | nil => exact .nil
          | @cons child chunk children built hhead _ ihTail =>
              rw [List.map_cons, List.map_cons, List.flatten_cons, List.flatten_cons]
              apply List.rel_append
              · refine (ih hhead).imp ?_
                rintro item part ⟨below, hbelow, hmem, hincl, hrange⟩
                exact ⟨below, hbelow.mono (Nat.le_succ levels), hmem,
                  List.Subset.trans hincl (hsub chunk List.mem_cons_self),
                  hrange.trans (hpart child List.mem_cons_self)⟩
              · exact ihTail
                  (fun chunk hchunk => hsub chunk (List.mem_cons_of_mem _ hchunk))
                  (fun child hchild => hpart child (List.mem_cons_of_mem _ hchild))
        · exact .cons ⟨_, h, by simp, List.Subset.refl _, List.infix_refl _⟩ .nil

end Hash

end CheckPo
