/-
Order facts behind the radix split: keys between two keys share their common
prefix, the next byte grows with the key, and the runs of a sorted list are
exactly its groups by next byte.
-/
import CheckPo.ManifestBuild

namespace CheckPo

/-! Byte strings in lexicographic order. -/

theorem prefix_of_between {pre left middle right : Bytes}
    (hleft : pre <+: left) (hright : pre <+: right)
    (hlm : left ≤ middle) (hmr : middle ≤ right) : pre <+: middle := by
  induction pre generalizing left middle right with
  | nil => exact List.nil_prefix
  | cons byte pre ih =>
      obtain ⟨leftTail, rfl⟩ := hleft
      obtain ⟨rightTail, rfl⟩ := hright
      cases middle with
      | nil => exact absurd hlm (bytes_not_cons_le_nil _ _)
      | cons head tail =>
          rw [List.cons_append, bytes_cons_le_cons] at hlm hmr
          have hhead : head = byte := by
            rcases hlm with hlt | ⟨heq, -⟩
            · rcases hmr with hlt' | ⟨heq', -⟩
              · exact absurd hlt (not_lt.mpr hlt'.le)
              · exact heq'
            · exact heq.symm
          subst hhead
          simp only [lt_self_iff_false, true_and, false_or] at hlm hmr
          rw [List.cons_prefix_cons]
          exact ⟨rfl, ih (List.prefix_append pre leftTail)
            (List.prefix_append pre rightTail) hlm hmr⟩

/-- Among keys with a common prefix, the byte after it grows with the key. -/
theorem edgeAt_le_of_le {pre left right : Bytes} (hleft : pre <+: left)
    (hright : pre <+: right) (hle : left ≤ right) :
    edgeAt left pre.length ≤ edgeAt right pre.length := by
  obtain ⟨leftTail, rfl⟩ := hleft
  obtain ⟨rightTail, rfl⟩ := hright
  have htail : leftTail ≤ rightTail := by
    induction pre with
    | nil => exact hle
    | cons byte pre ih =>
        simp only [List.cons_append, bytes_cons_le_cons, lt_self_iff_false,
          true_and, false_or] at hle
        exact ih hle
  simp only [edgeAt, List.getD_append_right _ _ _ _ (le_refl _), Nat.sub_self]
  cases leftTail with
  | nil => simp
  | cons head tail =>
      cases rightTail with
      | nil => exact absurd htail (bytes_not_cons_le_nil _ _)
      | cons head' tail' =>
          rw [bytes_cons_le_cons] at htail
          rcases htail with hlt | ⟨rfl, -⟩
          · exact hlt.le
          · exact le_refl _

theorem commonPrefixLen_le_left (left right : Bytes) :
    commonPrefixLen left right ≤ left.length := by
  have hle := (List.takeWhile_sublist (fun pair : UInt8 × UInt8 =>
    pair.1 == pair.2) (l := left.zip right)).length_le
  rw [List.length_zip] at hle
  exact hle.trans (min_le_left _ _)

theorem take_commonPrefixLen_prefix_right (left right : Bytes) :
    left.take (commonPrefixLen left right) <+: right := by
  induction left generalizing right with
  | nil => simp
  | cons head tail ih =>
      cases right with
      | nil => simp [commonPrefixLen]
      | cons head' tail' =>
          by_cases heq : head = head'
          · subst heq
            have hlen : commonPrefixLen (head :: tail) (head :: tail') =
                commonPrefixLen tail tail' + 1 := by
              simp [commonPrefixLen]
            rw [hlen, List.take_succ_cons, List.cons_prefix_cons]
            exact ⟨rfl, ih tail'⟩
          · have hlen : commonPrefixLen (head :: tail) (head' :: tail') = 0 := by
              simp [commonPrefixLen, heq]
            simp [hlen]

/-! Runs of equal edges. -/

/-- Every entry of the run has the run's edge. -/
def UniformEdge (prefixLen : Nat) (edge : UInt8) (range : List KeyedEntry) : Prop :=
  ∀ keyed ∈ range, edgeAt keyed.key prefixLen = edge

theorem splitChildren_cons (prefixLen : Nat) (first : KeyedEntry)
    (rest : List KeyedEntry) :
    splitChildren prefixLen (first :: rest) =
      (first :: rest.takeWhile (sameEdge prefixLen first)) ::
        splitChildren prefixLen (rest.dropWhile (sameEdge prefixLen first)) := by
  rw [splitChildren]

theorem splitChildren_flatten (prefixLen : Nat) (entries : List KeyedEntry) :
    (splitChildren prefixLen entries).flatten = entries := by
  induction entries using splitChildren.induct prefixLen with
  | case1 => simp [splitChildren]
  | case2 first rest ih =>
      rw [splitChildren_cons, List.flatten_cons, ih, List.cons_append,
        List.takeWhile_append_dropWhile]

theorem splitChildren_ne_nil {prefixLen : Nat} {entries range : List KeyedEntry}
    (hrange : range ∈ splitChildren prefixLen entries) : range ≠ [] := by
  induction entries using splitChildren.induct prefixLen with
  | case1 => simp [splitChildren] at hrange
  | case2 first rest ih =>
      rw [splitChildren_cons, List.mem_cons] at hrange
      rcases hrange with rfl | hrange
      · simp
      · exact ih hrange

theorem splitChildren_uniformEdge {prefixLen : Nat}
    {entries range : List KeyedEntry}
    (hrange : range ∈ splitChildren prefixLen entries) :
    UniformEdge prefixLen (rangeEdge prefixLen range) range := by
  induction entries using splitChildren.induct prefixLen with
  | case1 => simp [splitChildren] at hrange
  | case2 first rest ih =>
      rw [splitChildren_cons, List.mem_cons] at hrange
      rcases hrange with rfl | hrange
      · intro keyed hkeyed
        rw [List.mem_cons] at hkeyed
        rcases hkeyed with rfl | hkeyed
        · simp [rangeEdge]
        · simpa [sameEdge, rangeEdge] using List.mem_takeWhile_imp hkeyed
      · exact ih hrange

theorem splitChildren_mem_subset {prefixLen : Nat}
    {entries range : List KeyedEntry}
    (hrange : range ∈ splitChildren prefixLen entries) : range ⊆ entries := by
  intro keyed hkeyed
  rw [← splitChildren_flatten prefixLen entries]
  exact List.mem_flatten.mpr ⟨range, hrange, hkeyed⟩

/-- Nonempty runs with uniform edges, each different from the next one's, are
what the split of their concatenation finds. -/
theorem splitChildren_flatten_of_runs {prefixLen : Nat}
    {ranges : List (List KeyedEntry)} (hne : ∀ range ∈ ranges, range ≠ [])
    (huniform : ∀ range ∈ ranges,
      UniformEdge prefixLen (rangeEdge prefixLen range) range)
    (hchain : ranges.IsChain fun left right =>
      rangeEdge prefixLen left ≠ rangeEdge prefixLen right) :
    splitChildren prefixLen ranges.flatten = ranges := by
  induction ranges with
  | nil => simp [splitChildren]
  | cons range ranges ih =>
      obtain ⟨first, rest, rfl⟩ :=
        List.exists_cons_of_ne_nil (hne range List.mem_cons_self)
      have hsame : ∀ keyed ∈ rest, sameEdge prefixLen first keyed = true := by
        intro keyed hkeyed
        have h := huniform _ List.mem_cons_self keyed (List.mem_cons_of_mem _ hkeyed)
        simpa [sameEdge, rangeEdge] using h
      have hstop : ∀ keyed ∈ ranges.flatten.head?,
          sameEdge prefixLen first keyed = false := by
        intro keyed hkeyed
        cases ranges with
        | nil => simp at hkeyed
        | cons next ranges =>
            obtain ⟨head, tail, rfl⟩ := List.exists_cons_of_ne_nil
              (hne next (List.mem_cons_of_mem _ List.mem_cons_self))
            have hedge := (List.isChain_cons_cons.mp hchain).1
            simp only [List.flatten_cons, List.cons_append, List.head?_cons,
              Option.mem_some_iff] at hkeyed
            subst hkeyed
            simpa [sameEdge, rangeEdge] using Ne.symm hedge
      have hdrop : (rest ++ ranges.flatten).dropWhile (sameEdge prefixLen first) =
          ranges.flatten := by
        rw [List.dropWhile_append_of_pos hsame]
        cases hflat : ranges.flatten with
        | nil => rfl
        | cons head tail =>
            have := hstop head (by simp [hflat])
            simp [this]
      have htake : (rest ++ ranges.flatten).takeWhile (sameEdge prefixLen first) =
          rest := by
        rw [List.takeWhile_append_of_pos hsame]
        cases hflat : ranges.flatten with
        | nil => simp
        | cons head tail =>
            have := hstop head (by simp [hflat])
            simp [this]
      rw [List.flatten_cons, List.cons_append, splitChildren_cons, htake, hdrop, ih
        (fun range hrange => hne range (List.mem_cons_of_mem _ hrange))
        (fun range hrange => huniform range (List.mem_cons_of_mem _ hrange))
        hchain.of_cons]

/-- The edge that follows a run differs from the run's. -/
theorem splitChildren_isChain (prefixLen : Nat) (entries : List KeyedEntry) :
    (splitChildren prefixLen entries).IsChain fun left right =>
      rangeEdge prefixLen left ≠ rangeEdge prefixLen right := by
  induction entries using splitChildren.induct prefixLen with
  | case1 => simp [splitChildren]
  | case2 first rest ih =>
      rw [splitChildren_cons, List.isChain_cons]
      refine ⟨?_, ih⟩
      intro next hnext
      cases hdrop : rest.dropWhile (sameEdge prefixLen first) with
      | nil => simp [hdrop, splitChildren] at hnext
      | cons head tail =>
          rw [hdrop, splitChildren_cons, List.head?_cons, Option.mem_some_iff] at hnext
          subst hnext
          have hhead : sameEdge prefixLen first head = false := by
            have := List.head?_dropWhile_not (sameEdge prefixLen first) rest
            simpa [hdrop] using this
          simpa [rangeEdge, sameEdge] using Ne.symm (by simpa [sameEdge] using hhead)

/-! Ordered keys. -/

/-- What the writer requires of neighbours: keys strictly increase, and no path
lies below the one before it. -/
def KeysFollow (previous current : KeyedEntry) : Prop :=
  previous.key < current.key ∧ isPathAncestor previous.key current.key = false

def KeysOrdered (range : List KeyedEntry) : Prop := range.IsChain KeysFollow

theorem validateAdjacent_eq_ok {tables : UnicodeTables} {previous current : KeyedEntry} :
    validateAdjacent tables previous current = .ok () ↔ KeysFollow previous current := by
  simp only [validateAdjacent, except_guard_eq_ok, KeysFollow]
  rw [Bool.not_eq_true]
  constructor
  · rintro ⟨hne, hle, hancestor⟩
    exact ⟨lt_of_le_of_ne (not_lt.mp hle) hne, hancestor.1⟩
  · rintro ⟨hlt, hancestor⟩
    exact ⟨hlt.ne, hlt.asymm, hancestor, trivial⟩

theorem validateOrderedKeys_eq_ok {tables : UnicodeTables} {range : List KeyedEntry} :
    validateOrderedKeys tables range = .ok () ↔ KeysOrdered range := by
  induction range with
  | nil => simp [validateOrderedKeys, KeysOrdered]
  | cons first rest ih =>
      cases rest with
      | nil => simp [validateOrderedKeys, KeysOrdered]
      | cons second rest =>
          simp only [validateOrderedKeys, except_bind_eq_ok, KeysOrdered,
            List.isChain_cons_cons]
          rw [← @validateAdjacent_eq_ok tables]
          constructor
          · rintro ⟨_, hfirst, hrest⟩
            exact ⟨hfirst, ih.mp hrest⟩
          · rintro ⟨hfirst, hrest⟩
            exact ⟨(), hfirst, ih.mpr hrest⟩

theorem KeysOrdered.pairwise {range : List KeyedEntry} (h : KeysOrdered range) :
    range.Pairwise fun left right => left.key < right.key := by
  have hchain : range.IsChain fun left right => left.key < right.key :=
    h.imp fun _ _ hfollow => hfollow.1
  have htrans : IsTrans KeyedEntry fun left right => left.key < right.key :=
    ⟨fun _ _ _ hab hbc => lt_trans hab hbc⟩
  exact hchain.pairwise

theorem KeysOrdered.nodup_keys {range : List KeyedEntry} (h : KeysOrdered range) :
    (range.map KeyedEntry.key).Nodup := by
  rw [List.Nodup, List.pairwise_map]
  exact h.pairwise.imp fun hlt => hlt.ne

/-- What an accepted range of entries is: its keys are those of its paths, in
order. -/
structure ValidRange (tables : UnicodeTables) (range : List KeyedEntry) : Prop where
  keyed : ∀ keyed ∈ range, keyedEntry tables keyed.entry = .ok keyed
  ordered : KeysOrdered range

theorem keyedEntry_eq_ok {tables : UnicodeTables} {entry : ManifestEntry}
    {keyed : KeyedEntry} :
    keyedEntry tables entry = .ok keyed ↔
      portablePathKeyV1 tables entry.exactPath = .ok keyed.key ∧
        keyed.entry = entry := by
  obtain ⟨key, entry'⟩ := keyed
  simp only [keyedEntry, except_bind_eq_ok, except_pure_eq_ok, KeyedEntry.mk.injEq]
  constructor
  · rintro ⟨_, hkey, rfl, rfl⟩
    exact ⟨hkey, rfl⟩
  · rintro ⟨hkey, rfl⟩
    exact ⟨key, hkey, rfl, rfl⟩

/-- Keying a list of entries leaves the entries as they are. -/
theorem mapM_keyedEntry_eq_ok {tables : UnicodeTables} {entries : List ManifestEntry}
    {range : List KeyedEntry} :
    entries.mapM (keyedEntry tables) = .ok range ↔
      range.map KeyedEntry.entry = entries ∧
        ∀ keyed ∈ range, keyedEntry tables keyed.entry = .ok keyed := by
  rw [mapM_eq_ok_iff]
  constructor
  · intro h
    induction h with
    | nil => simp
    | @cons entry keyed entries range hhead _ ih =>
        obtain ⟨hmap, hall⟩ := ih
        have hentry := (keyedEntry_eq_ok.mp hhead).2
        refine ⟨by rw [List.map_cons, hmap, hentry], ?_⟩
        rw [List.forall_mem_cons]
        exact ⟨hentry ▸ hhead, hall⟩
  · rintro ⟨rfl, hall⟩
    rw [List.forall₂_map_left_iff, List.forall₂_same]
    exact hall

end CheckPo
