/-
Path conflicts: two files under one portable key, or a file where another path
has a directory.  The writer and the validator look at neighbouring keys only;
the check of a snapshot file looks at every ancestor of every key.
-/
import CheckPo.SnapshotRoundTrip

namespace CheckPo

/-- The key of a path inside the directory that the other key names: that key and
a slash begin it.  No tracked path ends with a slash. -/
def LiesBelow (child parent : Bytes) : Prop := parent ++ [47] <+: child

instance (child parent : Bytes) : Decidable (LiesBelow child parent) :=
  inferInstanceAs (Decidable (_ <+: _))

/-- Two entries with the same key, or one below another. -/
def KeyConflict (keys : List Bytes) : Prop :=
  ¬ keys.Nodup ∨ ∃ parent ∈ keys, ∃ child ∈ keys, LiesBelow child parent

/-- Some key sorts between the parent and everything below it. -/
def Separated (keys : List Bytes) (parent : Bytes) : Prop :=
  ∃ key ∈ keys, parent < key ∧ key < parent ++ [47]

/-- No key twice, a conflict, and every parent in a conflict separated from what
lies below it. -/
structure Shadowed (keys : List Bytes) : Prop where
  nodup : keys.Nodup
  conflict : ∃ parent ∈ keys, ∃ child ∈ keys, LiesBelow child parent
  separated : ∀ parent ∈ keys, ∀ child ∈ keys, LiesBelow child parent →
    Separated keys parent

theorem isPathAncestor_iff {parent child : Bytes} :
    isPathAncestor parent child = true ↔ LiesBelow child parent := by
  simp only [isPathAncestor, Bool.and_eq_true, decide_eq_true_eq, List.isPrefixOf_iff_prefix,
    beq_iff_eq, LiesBelow]
  constructor
  · rintro ⟨⟨-, rest, rfl⟩, hslash⟩
    cases rest with
    | nil => simp at hslash
    | cons head tail =>
        rw [List.getElem?_append_right (le_refl _), Nat.sub_self, List.getElem?_cons_zero,
          Option.some.injEq] at hslash
        rw [hslash]
        exact ⟨tail, by simp⟩
  · rintro ⟨rest, rfl⟩
    rw [List.append_assoc]
    exact ⟨⟨by simp, List.prefix_append _ _⟩, by simp⟩

/-! Neighbours and all pairs. -/

theorem prefix_le_key {pre key : Bytes} (h : pre <+: key) : pre ≤ key := by
  obtain ⟨rest, rfl⟩ := h
  induction pre with
  | nil => exact not_lt.mp (List.not_lt_nil _)
  | cons head tail ih =>
      rw [List.cons_append, bytes_cons_le_cons]
      exact Or.inr ⟨rfl, ih⟩

theorem lt_append_slash (key : Bytes) : key < key ++ [47] := by
  apply lt_of_le_of_ne (prefix_le_key (List.prefix_append _ _))
  intro heq
  have hlength := congrArg List.length heq
  simp at hlength

theorem LiesBelow.lt {child parent : Bytes} (h : LiesBelow child parent) : parent < child :=
  lt_of_lt_of_le (lt_append_slash parent) (prefix_le_key h)

/-- A key between a parent and a key below it either lies below the parent too, or
separates the two. -/
theorem LiesBelow.between {parent key child : Bytes} (h : LiesBelow child parent)
    (hkey : key ≤ child) (hnot : ¬ LiesBelow key parent) : key < parent ++ [47] := by
  by_contra hge
  exact hnot (prefix_of_between (List.prefix_refl _) h (not_lt.mp hge) hkey)

/-- Among increasing keys, the check of neighbours finds no conflict exactly when
every parent in a conflict is separated. -/
theorem neighbours_free_iff {keys : List Bytes} (hsorted : keys.Pairwise (· < ·)) :
    (keys.IsChain fun left right => ¬ LiesBelow right left) ↔
      ∀ parent ∈ keys, ∀ child ∈ keys, LiesBelow child parent → Separated keys parent := by
  induction keys with
  | nil => simp
  | cons first rest ih =>
      obtain ⟨hfirst, hrest⟩ := List.pairwise_cons.mp hsorted
      rw [List.isChain_cons, ih hrest]
      constructor
      · rintro ⟨hnext, hseparated⟩ parent hparent child hchild hbelow
        rcases List.mem_cons.mp hchild with rfl | hchildRest
        · rcases List.mem_cons.mp hparent with rfl | hparentRest
          · exact absurd hbelow.lt (lt_irrefl _)
          · exact absurd (hbelow.lt.trans (hfirst _ hparentRest)) (lt_irrefl _)
        · rcases List.mem_cons.mp hparent with rfl | hparentRest
          · cases rest with
            | nil => exact absurd hchildRest List.not_mem_nil
            | cons second rest =>
                have hle : second ≤ child := by
                  rcases List.mem_cons.mp hchildRest with rfl | hlater
                  · exact le_refl _
                  · exact (List.rel_of_pairwise_cons hrest hlater).le
                exact ⟨second, by simp, hfirst _ List.mem_cons_self,
                  hbelow.between hle (hnext second rfl)⟩
          · obtain ⟨key, hkey, hbetween⟩ :=
              hseparated parent hparentRest child hchildRest hbelow
            exact ⟨key, List.mem_cons_of_mem _ hkey, hbetween⟩
      · intro hall
        constructor
        · intro second hsecond hbelow
          cases rest with
          | nil => cases hsecond
          | cons head rest =>
              rw [List.head?_cons, Option.mem_some_iff] at hsecond
              subst hsecond
              obtain ⟨key, hkey, hlt, hgt⟩ := hall first List.mem_cons_self head (by simp) hbelow
              have hhead : key < head := lt_of_lt_of_le hgt (prefix_le_key hbelow)
              rcases List.mem_cons.mp hkey with rfl | hkey
              · exact lt_irrefl _ hlt
              · rcases List.mem_cons.mp hkey with rfl | hkey
                · exact lt_irrefl _ hhead
                · exact lt_irrefl _ (hhead.trans (List.rel_of_pairwise_cons hrest hkey))
        · intro parent hparent child hchild hbelow
          obtain ⟨key, hkey, hlt, hgt⟩ := hall parent (List.mem_cons_of_mem _ hparent) child
            (List.mem_cons_of_mem _ hchild) hbelow
          rcases List.mem_cons.mp hkey with rfl | hkey
          · exact absurd (hlt.trans (hfirst _ hparent)) (lt_irrefl _)
          · exact ⟨key, hkey, hlt, hgt⟩

theorem separated_perm {keys keys' : List Bytes} (hperm : keys.Perm keys')
    {parent : Bytes} : Separated keys parent ↔ Separated keys' parent := by
  simp only [Separated, hperm.mem_iff]

theorem keyConflict_perm {keys keys' : List Bytes} (hperm : keys.Perm keys') :
    KeyConflict keys ↔ KeyConflict keys' := by
  simp only [KeyConflict, hperm.nodup_iff, hperm.mem_iff]

theorem sortByKey_sorted (range : List KeyedEntry) :
    ((sortByKey range).map KeyedEntry.key).Pairwise (· ≤ ·) := by
  have h := @List.pairwise_mergeSort KeyedEntry
    (fun left right => decide (left.key ≤ right.key))
    (fun a b c => by simpa using le_trans) (fun a b => by simpa using le_total _ _) range
  rw [List.pairwise_map]
  simpa [sortByKey] using h

/-- What the check of neighbours in the sorted list accepts. -/
theorem keysOrdered_sortByKey_iff {range : List KeyedEntry} {keys : List Bytes}
    (hkeys : range.map KeyedEntry.key = keys) :
    KeysOrdered (sortByKey range) ↔ keys.Nodup ∧
      ∀ parent ∈ keys, ∀ child ∈ keys, LiesBelow child parent → Separated keys parent := by
  have hperm : ((sortByKey range).map KeyedEntry.key).Perm keys :=
    hkeys ▸ (sortByKey_perm range).map _
  have hchain : ((sortByKey range).map KeyedEntry.key).Pairwise (· < ·) →
      (KeysOrdered (sortByKey range) ↔ ∀ parent ∈ keys, ∀ child ∈ keys,
        LiesBelow child parent → Separated keys parent) := by
    intro hsorted
    have hfree := neighbours_free_iff hsorted
    simp only [hperm.mem_iff, separated_perm hperm] at hfree
    rw [← hfree, List.isChain_map]
    constructor
    · exact fun h => h.imp fun left right hfollow hbelow =>
        absurd (isPathAncestor_iff.mpr hbelow) (by simp [hfollow.2])
    · intro h
      have hlt : (sortByKey range).IsChain fun left right => left.key < right.key :=
        (List.pairwise_map.mp hsorted).isChain
      exact isChain_combine hlt h fun left right hl hr =>
        ⟨hl, Bool.eq_false_iff.mpr fun h => hr (isPathAncestor_iff.mp h)⟩
  constructor
  · intro h
    have hsorted := List.pairwise_map.mpr h.pairwise
    exact ⟨hperm.nodup_iff.mp (hsorted.imp fun hlt => hlt.ne), (hchain hsorted).mp h⟩
  · rintro ⟨hnodup, hseparated⟩
    have hsorted := List.Pairwise.and (sortByKey_sorted range) (hperm.nodup_iff.mpr hnodup)
    exact (hchain (hsorted.imp fun h => lt_of_le_of_ne h.1 h.2)).mpr hseparated

/-! Failing for a path conflict. -/

/-- The errors that report a path conflict. -/
def SnapshotV2Error.isPathConflict : SnapshotV2Error → Bool
  | .invalid message =>
      "portable path collision ".toList.isPrefixOf message.toList ||
        "file/directory ancestor conflict ".toList.isPrefixOf message.toList
  | _ => false

def FailsForConflict {α : Type} (result : SnapshotV2Result α) : Prop :=
  ∃ error, result = .error error ∧ error.isPathConflict = true

section Failing

variable {α β : Type}

@[simp] theorem failsForConflict_ok (value : α) :
    ¬ FailsForConflict (.ok value : SnapshotV2Result α) := by
  rintro ⟨error, h, -⟩
  cases h

@[simp] theorem failsForConflict_pure (value : α) :
    ¬ FailsForConflict (pure value : SnapshotV2Result α) :=
  failsForConflict_ok value

@[simp] theorem failsForConflict_error (error : SnapshotV2Error) :
    FailsForConflict (.error error : SnapshotV2Result α) ↔ error.isPathConflict = true := by
  simp [FailsForConflict]

@[simp] theorem failsForConflict_bind {first : SnapshotV2Result α}
    {next : α → SnapshotV2Result β} :
    FailsForConflict (first >>= next) ↔
      FailsForConflict first ∨ ∃ value, first = .ok value ∧ FailsForConflict (next value) := by
  cases first with
  | error error => simp
  | ok value => simp

@[simp] theorem failsForConflict_map {f : α → β} {first : SnapshotV2Result α} :
    FailsForConflict (f <$> first) ↔ FailsForConflict first := by
  cases first with
  | error error => simp [Functor.map, Except.map]
  | ok value => simp [Functor.map, Except.map]

@[simp] theorem failsForConflict_guard {p : Prop} [Decidable p] {error : SnapshotV2Error}
    {rest : SnapshotV2Result α} :
    FailsForConflict (if p then .error error else rest) ↔
      (p ∧ error.isPathConflict = true) ∨ (¬ p ∧ FailsForConflict rest) := by
  by_cases hp : p <;> simp [hp]

@[simp] theorem failsForConflict_orError {value : Option α} {error : SnapshotV2Error} :
    FailsForConflict (orError value error) ↔ value = none ∧ error.isPathConflict = true := by
  cases value with
  | none => simp [orError]
  | some value => simp [orError]

@[simp] theorem failsForConflict_codec (result : CodecResult α) :
    ¬ FailsForConflict (liftM result : SnapshotV2Result α) := by
  change ¬ FailsForConflict (fromCodec result)
  cases result with
  | error error => simp [fromCodec, SnapshotV2Error.isPathConflict]
  | ok value => simp [fromCodec]

end Failing

theorem isPathConflict_append {text : String} (rest : String)
    (h : (SnapshotV2Error.invalid text).isPathConflict = true) :
    (SnapshotV2Error.invalid (text ++ rest)).isPathConflict = true := by
  simp only [SnapshotV2Error.isPathConflict, Bool.or_eq_true, List.isPrefixOf_iff_prefix,
    String.toList_append] at h ⊢
  exact h.imp (fun hstart => hstart.trans (List.prefix_append _ _))
    fun hstart => hstart.trans (List.prefix_append _ _)

/-- No message that begins with another letter reports a conflict. -/
theorem not_isPathConflict_append {text : String} (rest : String) {head : Char}
    (hhead : text.toList.head? = some head) (hp : head ≠ 'p') (hf : head ≠ 'f') :
    (SnapshotV2Error.invalid (text ++ rest)).isPathConflict = false := by
  cases hlist : text.toList with
  | nil => simp [hlist] at hhead
  | cons first tail =>
      rw [hlist, List.head?_cons, Option.some.injEq] at hhead
      subst hhead
      simp [SnapshotV2Error.isPathConflict, String.toList_append, hlist,
        List.isPrefixOf_cons_cons, hp.symm, hf.symm]

theorem failsForConflict_validateAdjacent {tables : UnicodeTables} {previous current : KeyedEntry}
    (hle : previous.key ≤ current.key) :
    FailsForConflict (validateAdjacent tables previous current) ↔
      ¬ KeysFollow previous current := by
  rw [← @validateAdjacent_eq_ok tables, validateAdjacent]
  by_cases heq : previous.key = current.key
  · simp only [if_pos heq, failsForConflict_error, reduceCtorEq, not_false_eq_true, iff_true,
      String.append_assoc]
    exact isPathConflict_append _ (by decide +kernel)
  · rw [if_neg heq, if_neg (not_lt.mpr hle)]
    by_cases hancestor : isPathAncestor previous.key current.key = true
    · simp only [if_pos hancestor, failsForConflict_error, reduceCtorEq, not_false_eq_true,
        iff_true, String.append_assoc]
      exact isPathConflict_append _ (by decide +kernel)
    · simp [hancestor]

/-- The check of a sorted list fails only for a conflict. -/
theorem failsForConflict_validateOrderedKeys {tables : UnicodeTables} {range : List KeyedEntry}
    (hsorted : (range.map KeyedEntry.key).Pairwise (· ≤ ·)) :
    FailsForConflict (validateOrderedKeys tables range) ↔ ¬ KeysOrdered range := by
  induction range with
  | nil => simp [validateOrderedKeys, KeysOrdered]
  | cons first rest ih =>
      cases rest with
      | nil => simp [validateOrderedKeys, KeysOrdered]
      | cons second rest =>
          rw [List.map_cons, List.pairwise_cons] at hsorted
          have hpair := @failsForConflict_validateAdjacent tables first second
            (hsorted.1 second.key (by simp))
          have hrest := ih hsorted.2
          simp only [validateOrderedKeys, failsForConflict_bind, hpair, hrest, KeysOrdered,
            List.isChain_cons_cons, not_and_or]
          constructor
          · rintro (hfirst | ⟨_, -, htail⟩)
            · exact Or.inl hfirst
            · exact Or.inr htail
          · intro h
            by_cases hfollow : KeysFollow first second
            · exact Or.inr ⟨(), validateAdjacent_eq_ok.mpr hfollow,
                h.resolve_left (not_not_intro hfollow)⟩
            · exact Or.inl hfollow

theorem isPathConflict_depth : (SnapshotV2Error.invalid
    s!"manifest exceeds maximum depth {maxManifestDepth}").isPathConflict = false := by
  decide +kernel

theorem not_failsForConflict_rangeSummary (prefixes : List ManifestSummary)
    (start stop : Nat) : ¬ FailsForConflict (rangeSummary prefixes start stop) := by
  simp [rangeSummary, SnapshotV2Error.isPathConflict]

theorem not_failsForConflict_summaryPrefixes (total : ManifestSummary)
    (range : List KeyedEntry) : ¬ FailsForConflict (summaryPrefixes total range) := by
  have hlength : (SnapshotV2Error.invalid "exact path length overflow").isPathConflict =
      false := by
    decide +kernel
  have hentry : ∀ entry, ¬ FailsForConflict (entrySummary entry) := by
    intro entry
    by_cases h : (utf8 entry.exactPath).length < 2 ^ 64
    · rw [entrySummary, if_pos h]
      exact failsForConflict_ok _
    · rw [entrySummary, if_neg h, failsForConflict_error, hlength]
      exact Bool.false_ne_true
  induction range generalizing total with
  | nil => exact failsForConflict_ok _
  | cons first rest ih => simp [summaryPrefixes, hentry, ih]

theorem not_failsForConflict_leafEncodedLen (portablePrefix : Bytes)
    (summary : ManifestSummary) :
    ¬ FailsForConflict (leafEncodedLen portablePrefix summary) := by
  have hlength : (SnapshotV2Error.invalid "leaf length overflow").isPathConflict = false := by
    decide +kernel
  have husize : ∀ value, ¬ FailsForConflict (checkedUsize value) := by
    intro value
    by_cases h : value < 2 ^ 64
    · rw [checkedUsize, if_pos h]
      exact failsForConflict_ok value
    · rw [checkedUsize, if_neg h, failsForConflict_error, hlength]
      exact Bool.false_ne_true
  simp [leafEncodedLen, husize]

theorem not_failsForConflict_insertChunk (blake3 : Bytes → Digest32) (kind : ChunkKind)
    (bytes : Bytes) (chunks : Chunks) :
    ¬ FailsForConflict (insertChunk blake3 kind bytes chunks) := by
  simp only [insertChunk, failsForConflict_bind, failsForConflict_codec, false_or]
  rintro ⟨id, -, reference, -, hfails⟩
  rcases hget : Chunks.get chunks reference with _ | existing
  · simp [hget] at hfails
  · simp only [hget, failsForConflict_guard, failsForConflict_pure, and_false, or_false] at hfails
    rw [String.append_assoc, String.append_assoc, not_isPathConflict_append _
      (show _ = some 'd' by decide +kernel) (by decide) (by decide)] at hfails
    exact Bool.false_ne_true hfails.2

theorem not_failsForConflict_buildChildren
    {build : Nat → List KeyedEntry → Chunks → SnapshotV2Result (BuiltRange × Chunks)}
    (hbuild : ∀ start range chunks, ¬ FailsForConflict (build start range chunks))
    (prefixLen start : Nat) (ranges : List (List KeyedEntry)) (chunks : Chunks) :
    ¬ FailsForConflict (buildChildren build prefixLen start ranges chunks) := by
  induction ranges generalizing start chunks with
  | nil => exact failsForConflict_ok _
  | cons range ranges ih => simp [buildChildren, hbuild, ih]

theorem not_failsForConflict_buildRange (blake3 : Bytes → Digest32)
    (prefixes : List ManifestSummary) (target levels start : Nat) (range : List KeyedEntry)
    (chunks : Chunks) :
    ¬ FailsForConflict (buildRange blake3 prefixes target levels start range chunks) := by
  induction levels generalizing start range chunks with
  | zero =>
      rw [buildRange, failsForConflict_error, isPathConflict_depth]
      exact Bool.false_ne_true
  | succ levels ih =>
      have hchildren := not_failsForConflict_buildChildren ih
      rw [buildRange]
      simp only [failsForConflict_bind, failsForConflict_orError,
        not_failsForConflict_rangeSummary, not_failsForConflict_leafEncodedLen, false_or]
      rintro (⟨-, hempty⟩ | ⟨first, -, summary, -, leafLen, -, hfails⟩)
      · exact absurd hempty (by decide +kernel)
      · by_cases hleaf : leafLen ≤ target ∨ range.length = 1
        · rw [if_pos hleaf] at hfails
          simp [not_failsForConflict_insertChunk] at hfails
        · rw [if_neg hleaf] at hfails
          simp only [failsForConflict_bind, hchildren, false_or] at hfails
          obtain ⟨⟨children, after⟩, -, hfails⟩ := hfails
          have hunary : (SnapshotV2Error.invalid
              "canonical radix split produced a unary node").isPathConflict = false := by
            decide +kernel
          simp [hunary, not_failsForConflict_insertChunk] at hfails

/-- The keys of a list of entries are those of its keyed entries. -/
theorem mapM_key_keyed {tables : UnicodeTables} {entries : List ManifestEntry}
    {keys : List Bytes} (h : entries.mapM (fun entry =>
      portablePathKeyV1 tables entry.exactPath) = .ok keys) :
    ∃ range, entries.mapM (keyedEntry tables) = .ok range ∧
      range.map KeyedEntry.key = keys := by
  rw [mapM_eq_ok_iff] at h
  induction h with
  | nil => exact ⟨[], rfl, rfl⟩
  | @cons entry key entries keys hkey _ ih =>
      obtain ⟨range, hrange, rfl⟩ := ih
      refine ⟨⟨key, entry⟩ :: range, ?_, rfl⟩
      rw [mapM_eq_ok_iff] at hrange ⊢
      exact .cons (keyedEntry_eq_ok.mpr ⟨hkey, rfl⟩) hrange

/-- The writer fails for a conflict exactly when the check of neighbours does. -/
theorem failsForConflict_buildManifest {blake3 : Bytes → Digest32} {tables : UnicodeTables}
    {entries : List ManifestEntry} {range : List KeyedEntry}
    (hrange : entries.mapM (keyedEntry tables) = .ok range) :
    FailsForConflict (buildManifest blake3 tables entries) ↔ ¬ KeysOrdered (sortByKey range) := by
  rw [buildManifest, buildManifestWithLeafTarget]
  by_cases hempty : entries = []
  · subst hempty
    rw [List.mapM_nil, except_pure_eq_ok] at hrange
    subst hrange
    have hsorted : sortByKey [] = [] := List.perm_nil.mp (sortByKey_perm [])
    simp [hsorted, KeysOrdered]
  · rw [if_neg hempty, hrange]
    simp only [except_bind_ok, failsForConflict_bind, failsForConflict_pure,
      failsForConflict_validateOrderedKeys (sortByKey_sorted range),
      not_failsForConflict_summaryPrefixes, not_failsForConflict_buildRange, and_false,
      exists_false, or_false]

/-! The check of a snapshot file. -/

theorem PortablePaths.get_eq_none_iff {paths : PortablePaths} {key : Bytes} :
    paths.get key = none ↔ key ∉ paths.map Prod.fst := by
  simp only [PortablePaths.get, Option.map_eq_none_iff, List.find?_eq_none, beq_iff_eq,
    List.mem_map, not_exists, not_and]

theorem PortablePaths.get_mem {paths : PortablePaths} {key : Bytes}
    {path : TrackedUnityFilePath} (h : paths.get key = some path) :
    path ∈ paths.map Prod.snd := by
  rw [PortablePaths.get, Option.map_eq_some_iff] at h
  obtain ⟨entry, hfind, rfl⟩ := h
  exact List.mem_map_of_mem (List.mem_of_find?_eq_some hfind)

theorem PortablePaths.insert_new {paths : PortablePaths} {key : Bytes}
    (hkey : key ∉ paths.map Prod.fst) (path : TrackedUnityFilePath) :
    paths.insert key path = (key, path) :: paths := by
  rw [PortablePaths.insert, List.filter_eq_self.mpr]
  intro entry hentry
  rw [bne_iff_ne]
  rintro rfl
  exact hkey (List.mem_map_of_mem hentry)

/-- Every ancestor of the key is looked up. -/
theorem PortablePaths.ancestor_eq_none_iff {paths : PortablePaths} {key : Bytes} :
    paths.ancestor key = none ↔ ∀ parent ∈ paths.map Prod.fst, ¬ LiesBelow key parent := by
  simp only [PortablePaths.ancestor, List.findSome?_eq_none_iff, List.mem_range]
  constructor
  · rintro hnone parent hparent ⟨rest, rfl⟩
    have hslash := hnone parent.length (by simp)
    rw [if_pos (by simp), PortablePaths.get_eq_none_iff] at hslash
    exact hslash (by simpa using hparent)
  · intro hfree index hindex
    by_cases hslash : key[index]? = some 47
    · rw [if_pos hslash, PortablePaths.get_eq_none_iff]
      intro hmem
      apply hfree _ hmem
      have htake : key.take index ++ [47] = key.take (index + 1) := by
        rw [List.take_add_one, hslash]
        rfl
      rw [LiesBelow, htake]
      exact List.take_prefix _ _
    · rw [if_neg hslash]

section Loader

variable {chrono : Chrono} {tables : UnicodeTables}

/-- The loop over files with distinct paths accepts them exactly when their keys are
distinct, and it collects these keys. -/
theorem validateSnapshotEntries_keys {snapshotId : SnapshotId} {files : List SnapshotEntry}
    {keys : List Bytes} {paths : PortablePaths}
    (hkeys : files.mapM (fun file => portablePathKeyV1 tables file.path.text) = .ok keys)
    (hfiles : ∀ file ∈ files, (∃ timestamp, parseTimestamp chrono snapshotId
      "modifiedAtUtc" file.modifiedAtUtc = .ok timestamp) ∧
      file.sizeBytes = file.contentSizeBytes)
    (hdistinct : (files.map SnapshotEntry.path ++ paths.map Prod.snd).Nodup)
    {after : PortablePaths} :
    files.foldlM (validateSnapshotEntry chrono tables snapshotId) paths = .ok after ↔
      keys.Nodup ∧ (∀ key ∈ keys, key ∉ paths.map Prod.fst) ∧
        (keys.zip (files.map SnapshotEntry.path)).reverse ++ paths = after := by
  induction files generalizing keys paths with
  | nil =>
      rw [List.mapM_nil, except_pure_eq_ok] at hkeys
      subst hkeys
      simp
  | cons file files ih =>
      simp only [List.mapM_cons, except_bind_eq_ok, except_pure_eq_ok] at hkeys
      obtain ⟨key, hkey, rest, hrest, rfl⟩ := hkeys
      rw [List.forall_mem_cons] at hfiles
      have hnotPath : file.path ∉ paths.map Prod.snd := fun hmem =>
        (List.nodup_append.mp hdistinct).2.2 _ (by simp) _ hmem rfl
      -- a key read before belongs to another path, which the check refuses
      have hexisting : (paths.get key).any (fun path => path ≠ file.path) = true ↔
          key ∈ paths.map Prod.fst := by
        rcases hget : paths.get key with _ | existing
        · simpa using PortablePaths.get_eq_none_iff.mp hget
        · have hne : existing ≠ file.path := fun heq =>
            hnotPath (heq ▸ PortablePaths.get_mem hget)
          have hmem : key ∈ paths.map Prod.fst := by
            by_contra hnone
            rw [PortablePaths.get_eq_none_iff.mpr hnone] at hget
            cases hget
          simp [hne, hmem]
      rw [List.foldlM_cons, except_bind_eq_ok]
      simp only [validateSnapshotEntry_eq_ok, hkey, Except.ok.injEq, exists_eq_left',
        hexisting, hfiles.1.1, hfiles.1.2, true_and]
      have hrestDistinct : (files.map SnapshotEntry.path ++
          ((key, file.path) :: paths).map Prod.snd).Nodup := by
        rw [List.map_cons, List.nodup_middle]
        exact hdistinct
      have htail := ih hrest hfiles.2 hrestDistinct
      constructor
      · rintro ⟨middle, ⟨hnew, rfl⟩, hfold⟩
        rw [PortablePaths.insert_new hnew] at hfold
        obtain ⟨hnodup, hapart, hafter⟩ := htail.mp hfold
        simp only [List.map_cons, List.mem_cons, not_or] at hapart
        refine ⟨List.nodup_cons.mpr ⟨fun hmem => (hapart key hmem).1 rfl, hnodup⟩, ?_, ?_⟩
        · exact List.forall_mem_cons.mpr ⟨hnew, fun other hother => (hapart other hother).2⟩
        · rw [← hafter]
          simp
      · rintro ⟨hnodup, hapart, hafter⟩
        obtain ⟨hnotMem, hnodupRest⟩ := List.nodup_cons.mp hnodup
        obtain ⟨hnew, hapartRest⟩ := List.forall_mem_cons.mp hapart
        refine ⟨_, ⟨hnew, rfl⟩, ?_⟩
        rw [PortablePaths.insert_new hnew, htail]
        refine ⟨hnodupRest, fun other hother hmem => ?_, by rw [← hafter]; simp⟩
        rcases List.mem_cons.mp hmem with rfl | hmemPaths
        · exact hnotMem hother
        · exact hapartRest other hother hmemPaths

/-- All that the check of a snapshot file asks besides its keys. -/
structure SoundBesidesKeys (chrono : Chrono) (snapshotId : SnapshotId)
    (snapshot : SnapshotFile) : Prop where
  schema : snapshot.schemaVersion = snapshotSchemaVersionV2
  created : ∃ timestamp, parseTimestamp chrono snapshotId "createdAtUtc"
    snapshot.createdAtUtc = .ok timestamp
  name : ¬ (trim snapshot.name = "" ∨ trim snapshot.name ≠ snapshot.name)
  roots : snapshot.trackedRoots = ["Assets", "Packages", "ProjectSettings"]
  order : validateFileOrder snapshotId snapshot.files = .ok ()
  files : ∀ file ∈ snapshot.files, (∃ timestamp, parseTimestamp chrono snapshotId
    "modifiedAtUtc" file.modifiedAtUtc = .ok timestamp) ∧ file.sizeBytes = file.contentSizeBytes

/-- The check of a snapshot file finds every conflict. -/
theorem validateSnapshotFile_iff {snapshotId : SnapshotId} {snapshot : SnapshotFile}
    {keys : List Bytes} (hsound : SoundBesidesKeys chrono snapshotId snapshot)
    (hkeys : snapshot.files.mapM (fun file => portablePathKeyV1 tables file.path.text) =
      .ok keys) :
    validateSnapshotFile chrono tables snapshotId snapshot = .ok () ↔ ¬ KeyConflict keys := by
  have hdistinct : (snapshot.files.map SnapshotEntry.path ++
      ([] : PortablePaths).map Prod.snd).Nodup := by
    rw [List.map_nil, List.append_nil]
    exact (validateFileOrder_eq_ok.mp hsound.order).imp fun hlt heq =>
      absurd (heq ▸ hlt) (lt_irrefl _)
  have hlength : keys.length = (snapshot.files.map SnapshotEntry.path).length := by
    rw [List.length_map]
    exact (mapM_eq_ok_iff.mp hkeys).length_eq.symm
  have hcollected : (((keys.zip (snapshot.files.map SnapshotEntry.path)).reverse ++
      [] : PortablePaths).map Prod.fst) = keys.reverse := by
    rw [List.append_nil, List.map_reverse, List.map_fst_zip hlength.le]
  rw [validateSnapshotFile_eq_ok]
  simp only [validateSnapshotEntries_keys hkeys hsound.files hdistinct, validateAncestors_eq_ok,
    hsound.schema, hsound.created, hsound.name, hsound.roots, hsound.order, true_and,
    not_false_eq_true, PortablePaths.ancestor_eq_none_iff]
  simp only [KeyConflict, not_or, not_not]
  constructor
  · rintro ⟨paths, ⟨hnodup, -, rfl⟩, hancestors⟩
    refine ⟨hnodup, ?_⟩
    rintro ⟨parent, hparent, child, hchild, hbelow⟩
    have hmem : child ∈ keys.reverse := List.mem_reverse.mpr hchild
    rw [← hcollected, List.mem_map] at hmem
    obtain ⟨entry, hentry, rfl⟩ := hmem
    rw [hcollected] at hancestors
    exact hancestors entry hentry parent (List.mem_reverse.mpr hparent) hbelow
  · rintro ⟨hnodup, hfree⟩
    refine ⟨_, ⟨hnodup, by simp, rfl⟩, ?_⟩
    rw [hcollected]
    intro entry hentry parent hparent hbelow
    have hmem : entry.1 ∈ keys.reverse := hcollected ▸ List.mem_map_of_mem hentry
    exact hfree ⟨parent, List.mem_reverse.mp hparent, entry.1, List.mem_reverse.mp hmem, hbelow⟩

end Loader

/-! The three checks. -/

/-- Path conflicts among these entries are rejected by the writer, by the validation of
any manifest that holds them, and by the check of any snapshot file with their paths. -/
structure ConflictsRejected (chrono : Chrono) (tables : UnicodeTables)
    (blake3 : Bytes → Digest32) (entries : List ManifestEntry) (keys : List Bytes) : Prop where
  writer : FailsForConflict (buildManifest blake3 tables entries) ↔ KeyConflict keys
  validator : ∀ source root summary read,
    validateManifest blake3 tables source root summary = .ok () →
      Yields blake3 source root read → read.Perm entries → ¬ KeyConflict keys
  loader : ∀ snapshotId snapshot, SoundBesidesKeys chrono snapshotId snapshot →
    (snapshot.files.map fun file => file.path.text).Perm
        (entries.map LeafEntry.exactPath) →
      (validateSnapshotFile chrono tables snapshotId snapshot = .ok () ↔ ¬ KeyConflict keys)

section Checks

variable {chrono : Chrono} {tables : UnicodeTables} {blake3 : Bytes → Digest32}

theorem keysOrdered_iff_of_not_shadowed {range : List KeyedEntry} {keys : List Bytes}
    (hkeys : range.map KeyedEntry.key = keys) (h : ¬ Shadowed keys) :
    KeysOrdered (sortByKey range) ↔ ¬ KeyConflict keys := by
  rw [keysOrdered_sortByKey_iff hkeys, KeyConflict, not_or, not_not]
  constructor
  · rintro ⟨hnodup, hseparated⟩
    exact ⟨hnodup, fun hconflict => h ⟨hnodup, hconflict, hseparated⟩⟩
  · rintro ⟨hnodup, hfree⟩
    exact ⟨hnodup, fun parent hparent child hchild hbelow =>
      absurd ⟨parent, hparent, child, hchild, hbelow⟩ hfree⟩

/-- A manifest that validation accepts passes the check of neighbours. -/
theorem keysOrdered_of_accepted {source : ManifestChunkSource} {root : Option ManifestRef}
    {summary : ManifestSummary} {read entries : List ManifestEntry} {range : List KeyedEntry}
    (haccepted : validateManifest blake3 tables source root summary = .ok ())
    (hyields : Yields blake3 source root read) (hperm : read.Perm entries)
    (hrange : entries.mapM (keyedEntry tables) = .ok range) :
    KeysOrdered (sortByKey range) := by
  obtain ⟨entries', hyields', -, built, hbuilt, -⟩ := acceptedManifest_built haccepted
  obtain rfl := hyields.unique hyields'
  by_contra hnot
  obtain ⟨error, herror, -⟩ := (failsForConflict_buildManifest hrange).mpr hnot
  rw [hbuilt entries hperm.symm] at herror
  cases herror

/-- The three checks reject exactly the conflicts unless the conflicts are shadowed:
then the writer accepts them all. -/
theorem conflictsRejected_iff {entries : List ManifestEntry} {keys : List Bytes}
    (hkeys : entries.mapM (fun entry => portablePathKeyV1 tables entry.exactPath) = .ok keys) :
    ConflictsRejected chrono tables blake3 entries keys ↔ ¬ Shadowed keys := by
  obtain ⟨range, hrange, hrangeKeys⟩ := mapM_key_keyed hkeys
  have hwriter := @failsForConflict_buildManifest blake3 tables entries range hrange
  constructor
  · intro h hshadowed
    have hordered := (keysOrdered_sortByKey_iff hrangeKeys).mpr
      ⟨hshadowed.nodup, hshadowed.separated⟩
    exact hwriter.mp (h.writer.mpr (Or.inr hshadowed.conflict)) hordered
  · intro h
    have hordered := keysOrdered_iff_of_not_shadowed hrangeKeys h
    refine ⟨by rw [hwriter, hordered, not_not], ?_, ?_⟩
    · intro source root summary read haccepted hyields hperm
      exact hordered.mp (keysOrdered_of_accepted haccepted hyields hperm hrange)
    · intro snapshotId snapshot hsound hperm
      obtain ⟨fileKeys, hfileKeys, hkeysPerm⟩ := @mapM_perm SnapshotV2Error String Bytes
        (portablePathKeyV1 tables) _ _ hperm keys (by rwa [List.mapM_map])
      rw [List.mapM_map] at hfileKeys
      rw [validateSnapshotFile_iff hsound hfileKeys, keyConflict_perm hkeysPerm]

end Checks

/-! Three files: a file, its metadata file, which sorts between, and a file inside a
directory of the first one's name. -/

namespace Sample

def shadowRange : List KeyedEntry :=
  ["a", "a.meta", "a/b"].map fun name =>
    ⟨utf8 ("assets/" ++ name), entry ("Assets/" ++ name)⟩

def shadowEntries : List ManifestEntry := shadowRange.map KeyedEntry.entry

def shadowKeys : List Bytes := shadowRange.map KeyedEntry.key

def shadowLeaf : Bytes :=
  (encodeLeaf ⟨rangePrefix shadowRange, shadowEntries⟩).toOption.getD []

def shadowRoot : ManifestRef := leafRef hash shadowLeaf

def shadowSource : ManifestChunkSource := fun reference =>
  if reference = shadowRoot then .ok shadowLeaf else .error (.source "missing")

theorem shadowRange_valid : ValidRange tables shadowRange where
  keyed := by decide +kernel
  ordered := (@validateOrderedKeys_eq_ok tables _).mp (by decide +kernel)

theorem shadowRange_canonical : Canonical hash manifestLeafTargetBytes
    (maxManifestDepth + 1) shadowRange shadowRoot [(shadowRoot, shadowLeaf)] :=
  (canonical_leaf (by decide +kernel)).mpr
    ⟨by decide, by decide +kernel, shadowLeaf, by decide +kernel, rfl, rfl⟩

theorem shadowSource_holds : Holds (sourceTable shadowSource) [(shadowRoot, shadowLeaf)] := by
  intro chunk hchunk
  rw [List.mem_singleton.mp hchunk, sourceTable_eq_some, shadowSource, if_pos rfl]

theorem shadowKeys_shadowed : Shadowed shadowKeys where
  nodup := by decide +kernel
  conflict := by decide +kernel
  separated := by
    unfold Separated
    decide +kernel

end Sample

/-- A conflict that the writer accepts and validation too. -/
theorem shadowed_accepted :
    Sample.shadowEntries.mapM (fun entry =>
        portablePathKeyV1 Sample.tables entry.exactPath) = .ok Sample.shadowKeys ∧
      KeyConflict Sample.shadowKeys ∧
      (∃ built, buildManifest Sample.hash Sample.tables Sample.shadowEntries = .ok built) ∧
      validateManifest Sample.hash Sample.tables Sample.shadowSource (some Sample.shadowRoot)
        ⟨3, 9, 31⟩ = .ok () ∧
      Yields Sample.hash Sample.shadowSource (some Sample.shadowRoot) Sample.shadowEntries ∧
      ¬ ConflictsRejected Sample.chrono Sample.tables Sample.hash Sample.shadowEntries
        Sample.shadowKeys := by
  have hconflict : KeyConflict Sample.shadowKeys := Or.inr Sample.shadowKeys_shadowed.conflict
  obtain ⟨built, hbuilt, -⟩ := buildManifest_of_canonical (List.Perm.refl _)
    Sample.shadowRange_valid (by unfold TotalsFit; decide +kernel) Sample.shadowRange_canonical
    Sample.shadowSource_holds
  refine ⟨Sample.shadowRange_valid.mapM_key, hconflict, ⟨built, hbuilt⟩, by decide +kernel,
    Sample.shadowRange_canonical.yields Sample.shadowSource_holds Sample.shadowRange_valid, ?_⟩
  intro hrejected
  obtain ⟨error, herror, -⟩ := hrejected.writer.mpr hconflict
  have hok : buildManifest Sample.hash Sample.tables Sample.shadowEntries = .ok built := hbuilt
  rw [hok] at herror
  cases herror

namespace Sample

/-- A file inside a directory of another file's name, with nothing that sorts between. -/
def nestedEntries : List ManifestEntry := [entry "Assets/a", entry "Assets/a/b"]

def nestedKeys : List Bytes := [utf8 "assets/a", utf8 "assets/a/b"]

theorem nestedKeys_eq : nestedEntries.mapM
    (fun entry => portablePathKeyV1 tables entry.exactPath) = .ok nestedKeys := by
  decide +kernel

theorem nestedKeys_conflict : LiesBelow (utf8 "assets/a/b") (utf8 "assets/a") ∧
    ¬ Separated nestedKeys (utf8 "assets/a") := by
  rw [← isPathAncestor_iff]
  unfold Separated
  decide +kernel

end Sample

theorem conflictsRejected_iff_sample : KeyConflict Sample.nestedKeys ∧
    ConflictsRejected Sample.chrono Sample.tables Sample.hash Sample.nestedEntries
      Sample.nestedKeys := by
  obtain ⟨hbelow, hadjacent⟩ := Sample.nestedKeys_conflict
  have hparent : utf8 "assets/a" ∈ Sample.nestedKeys := List.mem_cons_self
  have hchild : utf8 "assets/a/b" ∈ Sample.nestedKeys :=
    List.mem_cons_of_mem _ (List.mem_singleton_self _)
  refine ⟨Or.inr ⟨_, hparent, _, hchild, hbelow⟩,
    (conflictsRejected_iff Sample.nestedKeys_eq).mpr fun hshadowed => ?_⟩
  exact hadjacent (hshadowed.separated _ hparent _ hchild hbelow)

end CheckPo
