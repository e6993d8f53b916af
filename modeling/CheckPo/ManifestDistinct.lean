/-
No chunk occurs twice in a manifest.  The stored bytes of a chunk determine its
range, so two ranges share a reference only when they are equal, and the ranges
of one tree are distinct.
-/
import CheckPo.ManifestWriter

namespace CheckPo

section Hash

variable {blake3 : Bytes → Digest32} {tables : UnicodeTables} {target : Nat}
variable {source : ManifestRef → Option Bytes}

theorem Holds.left {left right : Chunks} (h : Holds source (left ++ right)) :
    Holds source left :=
  fun chunk hchunk => h chunk (List.mem_append_left _ hchunk)

theorem Holds.right {left right : Chunks} (h : Holds source (left ++ right)) :
    Holds source right :=
  fun chunk hchunk => h chunk (List.mem_append_right _ hchunk)

theorem Holds.child {built : List (ManifestRef × Chunks)}
    (h : Holds source (built.map Prod.snd).flatten) {chunk : ManifestRef × Chunks}
    (hchunk : chunk ∈ built) : Holds source chunk.2 := by
  intro item hitem
  exact h item (List.mem_flatten.mpr ⟨chunk.2, List.mem_map_of_mem hchunk, hitem⟩)

/-- The root of a tree is one of its chunks, and its kind says how it is stored. -/
theorem Canonical.root_mem {levels : Nat} {range : List KeyedEntry}
    {reference : ManifestRef} {added : Chunks}
    (h : Canonical blake3 target levels range reference added) :
    reference ∈ added.map Prod.fst := by
  cases levels with
  | zero => exact h.elim
  | succ levels =>
      by_cases hleaf : RangeIsLeaf target range
      · obtain ⟨-, -, bytes, -, -, rfl⟩ := (canonical_leaf hleaf).mp h
        simp
      · obtain ⟨-, -, -, built, -, bytes, -, -, rfl⟩ := (canonical_node hleaf).mp h
        simp

theorem zipWith_snd {α β : Type} {left : List α} {right : List β}
    (hlength : right.length = left.length) :
    List.zipWith (fun _ item => item) left right = right := by
  induction left generalizing right with
  | nil => exact (List.eq_nil_of_length_eq_zero hlength).symm
  | cons head tail ih =>
      cases right with
      | nil => rfl
      | cons head' tail' => simpa using ih (by simpa using hlength)

/-- Two lists related to lists with equal labels are equal, when labels
determine what they are related to. -/
theorem eq_of_forall₂_labels {α β γ : Type} {R S : α → β → Prop} {label : β → γ}
    {lefts rights : List α} {built built' : List β}
    (hleft : List.Forall₂ R lefts built) (hright : List.Forall₂ S rights built')
    (hlabels : built.map label = built'.map label)
    (hinj : ∀ left ∈ lefts, ∀ right ∈ rights, ∀ chunk ∈ built, ∀ chunk' ∈ built',
      R left chunk → S right chunk' → label chunk = label chunk' → left = right) :
    lefts = rights := by
  induction hleft generalizing rights built' with
  | nil =>
      rw [List.map_nil, eq_comm, List.map_eq_nil_iff] at hlabels
      subst hlabels
      cases hright
      rfl
  | cons hhead _ ih =>
      cases hright with
      | nil => simp at hlabels
      | cons hhead' htail' =>
          rw [List.map_cons, List.map_cons, List.cons.injEq] at hlabels
          congr 1
          · exact hinj _ List.mem_cons_self _ List.mem_cons_self _ List.mem_cons_self
              _ List.mem_cons_self hhead hhead' hlabels.1
          · refine ih htail' hlabels.2 fun left hleft right hright chunk hchunk chunk'
              hchunk' => ?_
            exact hinj left (List.mem_cons_of_mem _ hleft) right
              (List.mem_cons_of_mem _ hright) chunk (List.mem_cons_of_mem _ hchunk)
              chunk' (List.mem_cons_of_mem _ hchunk')

theorem rangeManifestChildren_refs {range : List KeyedEntry}
    {references : List ManifestRef}
    (hlength : references.length = (rangeChildren range).length) :
    (rangeManifestChildren range references).map ManifestChild.child = references := by
  rw [rangeManifestChildren, List.map_zipWith]
  exact zipWith_snd hlength

theorem keyed_eq_of_entries {left right : List KeyedEntry}
    (hleft : ∀ keyed ∈ left, keyedEntry tables keyed.entry = .ok keyed)
    (hright : ∀ keyed ∈ right, keyedEntry tables keyed.entry = .ok keyed)
    (h : left.map KeyedEntry.entry = right.map KeyedEntry.entry) : left = right := by
  have hl := mapM_keyedEntry_eq_ok.mpr ⟨rfl, hleft⟩
  have hr := mapM_keyedEntry_eq_ok.mpr ⟨rfl, hright⟩
  rw [h, hr] at hl
  exact (Except.ok.inj hl).symm

/-- Ranges stored under one reference are equal. -/
theorem Canonical.range_unique {levels more : Nat} {left right : List KeyedEntry}
    {reference : ManifestRef} {leftChunks rightChunks : Chunks}
    (hleft : Canonical blake3 target levels left reference leftChunks)
    (hright : Canonical blake3 target more right reference rightChunks)
    (hleftHolds : Holds source leftChunks) (hrightHolds : Holds source rightChunks)
    (hleftKeyed : ∀ keyed ∈ left, keyedEntry tables keyed.entry = .ok keyed)
    (hrightKeyed : ∀ keyed ∈ right, keyedEntry tables keyed.entry = .ok keyed) :
    left = right := by
  induction levels generalizing more left right reference leftChunks rightChunks with
  | zero => exact hleft.elim
  | succ levels ih =>
      cases more with
      | zero => exact hright.elim
      | succ more =>
          by_cases hl : RangeIsLeaf target left
          · obtain ⟨-, -, bytes, hbytes, rfl, rfl⟩ := (canonical_leaf hl).mp hleft
            by_cases hr : RangeIsLeaf target right
            · obtain ⟨-, -, bytes', hbytes', href, rfl⟩ := (canonical_leaf hr).mp hright
              have hsame : bytes = bytes' := by
                have h := hleftHolds _ List.mem_cons_self
                have h' := hrightHolds _ List.mem_cons_self
                exact Option.some.inj (h.symm.trans h')
              subst hsame
              have hdecode := (decodeLeaf_encodeLeaf hbytes).symm.trans
                (decodeLeaf_encodeLeaf hbytes')
              rw [Except.ok.injEq, ManifestLeaf.mk.injEq] at hdecode
              exact keyed_eq_of_entries hleftKeyed hrightKeyed hdecode.2
            · obtain ⟨-, -, -, built', -, bytes', -, href, -⟩ :=
                (canonical_node hr).mp hright
              cases congrArg ManifestRef.kind href
          · obtain ⟨-, -, -, built, hbuilt, bytes, hbytes, rfl, rfl⟩ :=
              (canonical_node hl).mp hleft
            by_cases hr : RangeIsLeaf target right
            · obtain ⟨-, -, bytes', -, href, -⟩ := (canonical_leaf hr).mp hright
              cases congrArg ManifestRef.kind href
            · obtain ⟨-, -, -, built', hbuilt', bytes', hbytes', href, rfl⟩ :=
                (canonical_node hr).mp hright
              have hsame : bytes = bytes' := by
                have h := hleftHolds (nodeRef blake3 bytes, bytes) (by simp)
                have h' := hrightHolds (nodeRef blake3 bytes, bytes') (by simp)
                exact Option.some.inj (h.symm.trans h')
              subst hsame
              have hdecode := (decodeNode_encodeNode hbytes).symm.trans
                (decodeNode_encodeNode hbytes')
              rw [Except.ok.injEq, ManifestNode.mk.injEq] at hdecode
              have hrefs : built.map Prod.fst = built'.map Prod.fst := by
                have h := congrArg (List.map ManifestChild.child) hdecode.2
                rwa [rangeManifestChildren_refs (by simp [hbuilt.length_eq]),
                  rangeManifestChildren_refs (by simp [hbuilt'.length_eq])] at h
              have hchildren : rangeChildren left = rangeChildren right := by
                refine eq_of_forall₂_labels hbuilt hbuilt' hrefs ?_
                intro child hchild child' hchild' chunk hchunk chunk' hchunk' hcanonical
                  hcanonical' heq
                refine ih hcanonical (heq ▸ hcanonical')
                  (hleftHolds.left.child hchunk) (hrightHolds.left.child hchunk') ?_ ?_
                · exact fun keyed hkeyed =>
                    hleftKeyed keyed (splitChildren_mem_subset hchild hkeyed)
                · exact fun keyed hkeyed =>
                    hrightKeyed keyed (splitChildren_mem_subset hchild' hkeyed)
              rw [← rangeChildren_flatten left, hchildren, rangeChildren_flatten]

/-- Every range of the tree is nonempty and lies in the tree's range. -/
theorem Canonical.ranges_subset {levels : Nat} {range : List KeyedEntry}
    {reference : ManifestRef} {added : Chunks}
    (h : Canonical blake3 target levels range reference added)
    {part : List KeyedEntry} (hpart : part ∈ radixRanges target levels range) :
    part ≠ [] ∧ part ⊆ range := by
  obtain ⟨chunk, -, below, hbelow, -, -, hsub⟩ :=
    forall₂_mem_right h.chunks_ranges hpart
  exact ⟨hbelow.ne_nil, hsub.subset⟩

theorem radixRanges_node {levels : Nat} {range : List KeyedEntry}
    (hleaf : ¬ RangeIsLeaf target range) :
    radixRanges target (levels + 1) range =
      (rangeChildren range).flatMap (radixRanges target levels) ++ [range] := by
  rw [radixRanges, if_neg hleaf]

theorem pairwise_disjoint_of_flatten_nodup {α : Type} {parts : List (List α)}
    (h : parts.flatten.Nodup) : parts.Pairwise List.Disjoint :=
  (List.nodup_flatten.mp h).2

/-- Of two or more disjoint nonempty parts, one misses the part given. -/
theorem exists_other_of_two_le {α : Type} {parts : List (List α)}
    (htwo : 2 ≤ parts.length) (hdisjoint : parts.Pairwise List.Disjoint)
    (hne : ∀ part ∈ parts, part ≠ []) {part : List α} (hpart : part ∈ parts) :
    ∃ other ∈ parts, ∃ item ∈ other, item ∉ part := by
  match parts, htwo with
  | first :: second :: rest, _ =>
      have hfirst := List.rel_of_pairwise_cons hdisjoint
        (show second ∈ second :: rest from List.mem_cons_self)
      by_cases hsame : part = first
      · subst hsame
        obtain ⟨item, hitem⟩ := List.exists_mem_of_ne_nil second
          (hne second (List.mem_cons_of_mem _ List.mem_cons_self))
        exact ⟨second, List.mem_cons_of_mem _ List.mem_cons_self, item, hitem,
          fun h => hfirst h hitem⟩
      · obtain ⟨item, hitem⟩ := List.exists_mem_of_ne_nil first
          (hne first List.mem_cons_self)
        have hrest : part ∈ second :: rest := by
          simpa [hsame] using hpart
        exact ⟨first, List.mem_cons_self, item, hitem,
          fun h => List.rel_of_pairwise_cons hdisjoint hrest hitem h⟩

/-- The ranges of a tree over distinct entries are distinct. -/
theorem Canonical.ranges_nodup {levels : Nat} {range : List KeyedEntry}
    {reference : ManifestRef} {added : Chunks}
    (h : Canonical blake3 target levels range reference added)
    (hnodup : range.Nodup) : (radixRanges target levels range).Nodup := by
  induction levels generalizing range reference added with
  | zero => exact h.elim
  | succ levels ih =>
      by_cases hleaf : RangeIsLeaf target range
      · rw [radixRanges, if_pos hleaf]
        exact List.nodup_singleton range
      · obtain ⟨-, -, hsplit, built, hbuilt, -⟩ := (canonical_node hleaf).mp h
        have hflat : (rangeChildren range).flatten.Nodup := by
          rwa [rangeChildren_flatten]
        have hdisjoint := pairwise_disjoint_of_flatten_nodup hflat
        have hchild : ∀ child ∈ rangeChildren range, ∀ part ∈
            radixRanges target levels child, part ≠ [] ∧ part ⊆ child := by
          intro child hchild part hpart
          obtain ⟨chunk, -, hcanonical⟩ := forall₂_mem_left hbuilt hchild
          exact hcanonical.ranges_subset hpart
        rw [radixRanges_node hleaf]
        refine List.Nodup.append ?_ (List.nodup_singleton range) ?_
        · rw [List.nodup_flatMap]
          refine ⟨fun child hmem => ?_, ?_⟩
          · obtain ⟨chunk, -, hcanonical⟩ := forall₂_mem_left hbuilt hmem
            exact ih hcanonical ((List.nodup_flatten.mp hflat).1 child hmem)
          · refine hdisjoint.imp_of_mem fun {left right} hleft hright hdis => ?_
            intro part hpartLeft hpartRight
            obtain ⟨hne, hsubLeft⟩ := hchild left hleft part hpartLeft
            obtain ⟨-, hsubRight⟩ := hchild right hright part hpartRight
            obtain ⟨item, hitem⟩ := List.exists_mem_of_ne_nil part hne
            exact hdis (hsubLeft hitem) (hsubRight hitem)
        · rw [List.disjoint_singleton]
          intro hmem
          obtain ⟨child, hmemChild, hpart⟩ := List.mem_flatMap.mp hmem
          obtain ⟨-, hsub⟩ := hchild child hmemChild range hpart
          obtain ⟨other, hother, hne⟩ :=
            exists_other_of_two_le hsplit hdisjoint (rangeChildren_ne_nil range) hmemChild
          obtain ⟨item, hitem, hnot⟩ := hne
          exact hnot (hsub (splitChildren_mem_subset hother hitem))

theorem nodup_map_of_forall₂ {α β γ : Type} {R : α → β → Prop} {label : α → γ}
    {lefts : List α} {rights : List β} (h : List.Forall₂ R lefts rights)
    (hnodup : rights.Nodup)
    (hinj : ∀ left ∈ lefts, ∀ left' ∈ lefts, ∀ right ∈ rights, ∀ right' ∈ rights,
      R left right → R left' right' → label left = label left' → right = right') :
    (lefts.map label).Nodup := by
  induction h with
  | nil => exact List.nodup_nil
  | @cons left right lefts rights hhead htail ih =>
      rw [List.nodup_cons] at hnodup
      rw [List.map_cons, List.nodup_cons]
      constructor
      · intro hmem
        obtain ⟨left', hleft', hlabel⟩ := List.mem_map.mp hmem
        obtain ⟨right', hright', hR⟩ := forall₂_mem_left htail hleft'
        have heq := hinj left' (List.mem_cons_of_mem _ hleft') left List.mem_cons_self
          right' (List.mem_cons_of_mem _ hright') right List.mem_cons_self hR hhead hlabel
        exact hnodup.1 (heq ▸ hright')
      · refine ih hnodup.2 fun left hleft left' hleft' right hright right' hright' => ?_
        exact hinj left (List.mem_cons_of_mem _ hleft) left'
          (List.mem_cons_of_mem _ hleft') right (List.mem_cons_of_mem _ hright) right'
          (List.mem_cons_of_mem _ hright')

theorem KeysOrdered.nodup {range : List KeyedEntry} (h : KeysOrdered range) :
    range.Nodup := h.nodup_keys.of_map

/-- No reference occurs twice among the chunks of a tree. -/
theorem Canonical.refs_nodup {levels : Nat} {range : List KeyedEntry}
    {reference : ManifestRef} {added : Chunks}
    (h : Canonical blake3 target levels range reference added)
    (hholds : Holds source added) (hvalid : ValidRange tables range) :
    (added.map Prod.fst).Nodup := by
  refine nodup_map_of_forall₂ h.chunks_ranges (h.ranges_nodup hvalid.ordered.nodup) ?_
  rintro chunk - chunk' - part - part' - ⟨below, hbelow, -, hincl, hsub⟩
    ⟨below', hbelow', -, hincl', hsub'⟩ href
  exact hbelow.range_unique (href ▸ hbelow')
    (fun item hitem => hholds item (hincl hitem))
    (fun item hitem => hholds item (hincl' hitem))
    (fun keyed hkeyed => hvalid.keyed keyed (hsub.subset hkeyed))
    (fun keyed hkeyed => hvalid.keyed keyed (hsub'.subset hkeyed))

end Hash

end CheckPo
