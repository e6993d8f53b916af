/-
Trees whose entries all stand in directories: the names that a directory lists, what becomes
of a tree when parts of it are removed or moved, and the sizes of its parts.  Nothing here
names the repository.
-/
import CheckPo.FileTree

namespace CheckPo.FileTree

variable {α : Type}

/-- Whatever has an entry stands in a directory. -/
def Closed (tree : FileTree α) : Prop :=
  ∀ path name, tree.entry (path ++ [name]) ≠ none → tree.entry path = some .directory

theorem Closed.entry_of_start {tree : FileTree α} (h : tree.Closed) {top path : Path}
    (hstarts : top <+: path) (hne : path ≠ top) (hentry : tree.entry path ≠ none) :
    tree.entry top = some .directory := by
  rcases hstarts with ⟨rest, rfl⟩
  induction rest using List.reverseRecOn with
  | nil => exact absurd (List.append_nil top) hne
  | append_singleton rest name ih =>
      rw [← List.append_assoc] at hentry
      have hparent := h _ _ hentry
      by_cases hrest : top ++ rest = top
      · rwa [hrest] at hparent
      · exact ih hrest (by rw [hparent]; exact Option.some_ne_none _)

theorem Closed.entry_eq_none {tree : FileTree α} (h : tree.Closed) {top path : Path}
    (hstarts : top <+: path) (htop : tree.entry top ≠ some .directory) (hne : path ≠ top) :
    tree.entry path = none := by
  by_contra hentry
  exact htop (h.entry_of_start hstarts hne hentry)

/-! The names in a directory. -/

def childNames (tree : FileTree α) (dir : Path) : Finset String :=
  (tree.paths.filter fun path => path.dropLast = dir ∧ path ≠ []).image fun path =>
    path.getLastD ""

@[simp] theorem mem_childNames {tree : FileTree α} {dir : Path} {name : String} :
    name ∈ tree.childNames dir ↔ tree.entry (dir ++ [name]) ≠ none := by
  rw [childNames, Finset.mem_image]
  constructor
  · rintro ⟨path, hpath, rfl⟩
    rcases Finset.mem_filter.mp hpath with ⟨hmem, rfl, hne⟩
    rw [List.getLastD_eq_getLast?, List.getLast?_eq_getLast_of_ne_nil hne, Option.getD_some,
      List.dropLast_append_getLast hne]
    exact (tree.mem_paths path).mp hmem
  · intro hentry
    refine ⟨dir ++ [name], Finset.mem_filter.mpr ⟨(tree.mem_paths _).mpr hentry, ?_, ?_⟩, ?_⟩
    · rw [List.dropLast_concat]
    · simp
    · rw [List.getLastD_concat]

variable (order : LinearOrder String)

/-- A directory lists its names in some order of all names. -/
def names (tree : FileTree α) (dir : Path) : List String :=
  (tree.childNames dir).sort order.le

@[simp] theorem mem_names {tree : FileTree α} {dir : Path} {name : String} :
    name ∈ tree.names order dir ↔ tree.entry (dir ++ [name]) ≠ none := by
  rw [names, Finset.mem_sort, mem_childNames]

theorem nodup_names (tree : FileTree α) (dir : Path) : (tree.names order dir).Nodup :=
  Finset.sort_nodup _ _

/-- Where some of the names go, the others stay in their order. -/
theorem names_filter {before after : FileTree α} {dir : Path} {keep : String → Bool}
    (h : ∀ name, after.entry (dir ++ [name]) ≠ none ↔
      before.entry (dir ++ [name]) ≠ none ∧ keep name = true) :
    after.names order dir = (before.names order dir).filter keep := by
  have hperm : (after.names order dir).Perm ((before.names order dir).filter keep) := by
    rw [List.perm_ext_iff_of_nodup (nodup_names order _ _) ((nodup_names order _ _).filter _)]
    intro name
    rw [List.mem_filter, mem_names, mem_names, h]
  apply hperm.eq_of_pairwise fun _ _ _ _ => order.le_antisymm _ _
  · exact Finset.pairwise_sort _ _
  · exact (Finset.pairwise_sort _ _).filter _

/-! Making, clearing and removing. -/

/-- The entry of one path; the parent has to be a directory already. -/
def put (tree : FileTree α) (path : Path) (value : TreeEntry α) : FileTree α where
  entry other := if other = path then some value else tree.entry other
  paths := insert path tree.paths
  mem_paths other := by
    rw [Finset.mem_insert, tree.mem_paths]
    split <;> simp_all

/-- Everything below a directory goes, the directory stays. -/
def clear (tree : FileTree α) (dir : Path) : FileTree α where
  entry path := if dir <+: path ∧ path ≠ dir then none else tree.entry path
  paths := tree.paths.filter fun path => ¬ (dir <+: path ∧ path ≠ dir)
  mem_paths path := by
    rw [Finset.mem_filter, tree.mem_paths]
    split <;> simp_all

section Changes

variable {tree : FileTree α} {path source target dir : Path} {value : TreeEntry α}

theorem entry_put_self : (tree.put path value).entry path = some value := if_pos rfl

theorem entry_put_of_ne (h : path ≠ dir) : (tree.put dir value).entry path = tree.entry path :=
  if_neg h

theorem entry_clear_of_not (h : ¬ (dir <+: path ∧ path ≠ dir)) :
    (tree.clear dir).entry path = tree.entry path :=
  if_neg h

theorem entry_clear_below (h : dir <+: path) (hne : path ≠ dir) :
    (tree.clear dir).entry path = none :=
  if_pos ⟨h, hne⟩

theorem entry_erase_below (h : dir <+: path) : (tree.erase dir).entry path = none := if_pos h

theorem erase_eq_some_iff {found : TreeEntry α} :
    (tree.erase dir).entry path = some found ↔ ¬ dir <+: path ∧ tree.entry path = some found := by
  rw [erase]
  dsimp only
  split
  · next h => simp [h]
  · next h => simp [h]

/-- Nothing stands at a path or below it. -/
def Free (tree : FileTree α) (top : Path) : Prop := ∀ path, top <+: path → tree.entry path = none

theorem Closed.free (h : tree.Closed) {top : Path} (htop : tree.entry top = none) :
    tree.Free top := by
  intro path hstarts
  by_cases hne : path = top
  · rw [hne, htop]
  · exact h.entry_eq_none hstarts (by rw [htop]; exact nofun) hne

/-- To remove something through another name is to remove it. -/
theorem erase_move (hfree : tree.Free target) :
    (tree.move source target).erase target = tree.erase source := by
  ext1 path
  by_cases htarget : target <+: path
  · rw [entry_erase_below htarget]
    by_cases hsource : source <+: path
    · rw [entry_erase_below hsource]
    · rw [entry_erase_of_not hsource, hfree path htarget]
  · rw [entry_erase_of_not htarget]
    by_cases hsource : source <+: path
    · rw [entry_erase_below hsource, entry_move_source hsource htarget]
    · rw [entry_erase_of_not hsource, entry_move_of_not hsource htarget]

theorem erase_clear : (tree.clear dir).erase dir = tree.erase dir := by
  ext1 path
  by_cases hstarts : dir <+: path
  · rw [entry_erase_below hstarts, entry_erase_below hstarts]
  · rw [entry_erase_of_not hstarts, entry_erase_of_not hstarts,
      entry_clear_of_not fun h => hstarts h.1]

theorem Closed.erase (h : tree.Closed) (dir : Path) : (tree.erase dir).Closed := by
  intro path name hentry
  by_cases hstarts : dir <+: path ++ [name]
  · exact absurd (entry_erase_below hstarts) hentry
  · rw [entry_erase_of_not hstarts] at hentry
    rw [entry_erase_of_not fun hpath => hstarts (hpath.trans (List.prefix_append _ _))]
    exact h path name hentry

theorem Closed.put_directory (h : tree.Closed) {parent : Path} {name : String}
    (hparent : tree.entry parent = some .directory) :
    (tree.put (parent ++ [name]) .directory).Closed := by
  intro path child hentry
  by_cases hself : path = parent ++ [name]
  · rw [hself]
    exact entry_put_self
  · rw [entry_put_of_ne hself]
    by_cases hchild : path ++ [child] = parent ++ [name]
    · rw [(List.append_inj' hchild rfl).1]
      exact hparent
    · rw [entry_put_of_ne hchild] at hentry
      exact h path child hentry

/-- What is moved goes to a name in a directory that is not moved itself. -/
theorem Closed.move (h : tree.Closed) {parent : Path} {name : String}
    (hparent : tree.entry parent = some .directory) (hapart : ¬ source <+: parent) :
    (tree.move source (parent ++ [name])).Closed := by
  intro path child hentry
  by_cases htarget : parent ++ [name] <+: path
  · rcases htarget with ⟨rest, rfl⟩
    rw [List.append_assoc, entry_move_target, ← List.append_assoc] at hentry
    rw [entry_move_target]
    exact h _ _ hentry
  · by_cases hchild : parent ++ [name] <+: path ++ [child]
    · have hself : path ++ [child] = parent ++ [name] := by
        rcases List.prefix_concat_iff.mp hchild with heq | hstarts
        · exact heq.symm
        · exact absurd hstarts htarget
      have hpath := (List.append_inj' hself rfl).1
      rw [hpath] at htarget ⊢
      rw [entry_move_of_not hapart htarget]
      exact hparent
    · by_cases hsource : source <+: path ++ [child]
      · exact absurd (entry_move_source hsource hchild) hentry
      · rw [entry_move_of_not hsource hchild] at hentry
        have hnot : ¬ source <+: path := fun hpath => hsource (hpath.trans (List.prefix_append _ _))
        rw [entry_move_of_not hnot htarget]
        exact h path child hentry

end Changes

/-! Sizes. -/

section Sizes

variable (size : TreeEntry α → Nat) (tree : FileTree α)

def sizeAt (path : Path) : Nat := (tree.entry path).elim 0 size

/-- What the entries of a tree add up to. -/
def weight : Nat := ∑ path ∈ tree.paths, tree.sizeAt size path

def weightBelow (top : Path) : Nat := ∑ path ∈ tree.below top, tree.sizeAt size path

theorem sum_walk (top : Path) :
    ((tree.walk top).map (tree.sizeAt size)).sum = tree.weightBelow size top := by
  rw [weightBelow, Finset.sum_eq_multiset_sum, ← Finset.sort_eq (tree.below top) (· ≤ ·),
    Multiset.map_coe, Multiset.sum_coe]
  rfl

variable {size tree}

/-- A tree whose entries are all entries of another one. -/
theorem weight_le_of_entry {after : FileTree α}
    (h : ∀ path, after.entry path ≠ none → after.entry path = tree.entry path) :
    after.weight size ≤ tree.weight size := by
  have hentry : ∀ path ∈ after.paths, after.entry path = tree.entry path := fun path hpath =>
    h path ((after.mem_paths path).mp hpath)
  have hsubset : after.paths ⊆ tree.paths := by
    intro path hpath
    rw [tree.mem_paths, ← hentry path hpath]
    exact (after.mem_paths path).mp hpath
  have hsame : ∀ path ∈ after.paths, after.sizeAt size path = tree.sizeAt size path := by
    intro path hpath
    rw [sizeAt, sizeAt, hentry path hpath]
  rw [weight, Finset.sum_congr rfl hsame]
  exact Finset.sum_le_sum_of_subset hsubset

theorem weight_erase_le (gone : Path) : (tree.erase gone).weight size ≤ tree.weight size := by
  apply weight_le_of_entry
  intro path hentry
  exact entry_erase_of_not fun hstarts => hentry (entry_erase_below hstarts)

theorem weight_clear_le (dir : Path) : (tree.clear dir).weight size ≤ tree.weight size := by
  apply weight_le_of_entry
  intro path hentry
  exact entry_clear_of_not fun hbelow => hentry (entry_clear_below hbelow.1 hbelow.2)

theorem weight_move_le (source target : Path) :
    (tree.move source target).weight size ≤ tree.weight size := by
  have hkept : ∀ path ∈ tree.paths.filter fun path => ¬ source <+: path ∧ ¬ target <+: path,
      (tree.move source target).sizeAt size path = tree.sizeAt size path := by
    intro path hpath
    rcases (Finset.mem_filter.mp hpath).2 with ⟨hsource, htarget⟩
    rw [sizeAt, sizeAt, entry_move_of_not hsource htarget]
  have hmoved : ∀ path ∈ tree.paths.filter fun path => source <+: path,
      (tree.move source target).sizeAt size (target ++ path.drop source.length) =
        tree.sizeAt size path := by
    intro path hpath
    rcases (Finset.mem_filter.mp hpath).2 with ⟨rest, rfl⟩
    rw [sizeAt, sizeAt, List.drop_left, entry_move_target]
  have hinjective : Set.InjOn (fun path : Path => target ++ path.drop source.length)
      (tree.paths.filter fun path => source <+: path) := by
    intro left hleft right hright heq
    rcases (Finset.mem_filter.mp hleft).2 with ⟨leftRest, rfl⟩
    rcases (Finset.mem_filter.mp hright).2 with ⟨rightRest, rfl⟩
    simpa using heq
  have hapart : Disjoint (tree.paths.filter fun path => ¬ source <+: path ∧ ¬ target <+: path)
      (tree.paths.filter fun path => source <+: path) := by
    rw [Finset.disjoint_filter]
    exact fun _ _ h => h.1
  calc (tree.move source target).weight size
      ≤ ∑ path ∈ tree.paths.filter (fun path => ¬ source <+: path ∧ ¬ target <+: path),
            (tree.move source target).sizeAt size path +
          ∑ path ∈ (tree.paths.filter fun path => source <+: path).image
            (fun path => target ++ path.drop source.length),
            (tree.move source target).sizeAt size path :=
        (Nat.le_add_right _ _).trans_eq Finset.sum_union_inter
    _ = ∑ path ∈ tree.paths.filter (fun path => ¬ source <+: path ∧ ¬ target <+: path),
            tree.sizeAt size path +
          ∑ path ∈ tree.paths.filter (fun path => source <+: path), tree.sizeAt size path := by
        rw [Finset.sum_congr rfl hkept, Finset.sum_image hinjective, Finset.sum_congr rfl hmoved]
    _ = ∑ path ∈ (tree.paths.filter fun path => ¬ source <+: path ∧ ¬ target <+: path) ∪
            tree.paths.filter (fun path => source <+: path), tree.sizeAt size path :=
        (Finset.sum_union hapart).symm
    _ ≤ tree.weight size := Finset.sum_le_sum_of_subset (Finset.union_subset
        (Finset.filter_subset _ _) (Finset.filter_subset _ _))

theorem weight_put_directory {path : Path} (hsize : size .directory = 0)
    (hfree : tree.entry path = none) : (tree.put path .directory).weight size = tree.weight size := by
  have hnot : path ∉ tree.paths := fun hmem => (tree.mem_paths path).mp hmem hfree
  have hsame : ∀ other ∈ tree.paths,
      (tree.put path .directory).sizeAt size other = tree.sizeAt size other := by
    intro other hother
    have hne : other ≠ path := by
      rintro rfl
      exact hnot hother
    rw [sizeAt, sizeAt, entry_put_of_ne hne]
  have hself : (tree.put path .directory).sizeAt size path = 0 := by
    rw [sizeAt, entry_put_self]
    exact hsize
  rw [weight, show (tree.put path .directory).paths = insert path tree.paths from rfl,
    Finset.sum_insert hnot, hself, Finset.sum_congr rfl hsame, Nat.zero_add, weight]

/-- Parts that lie apart add up to no more than the whole. -/
theorem sum_weightBelow_le {tops : List Path}
    (hapart : tops.Pairwise fun left right => ¬ left <+: right ∧ ¬ right <+: left) :
    (tops.map (tree.weightBelow size)).sum ≤ tree.weight size := by
  have hpart : ∀ tops : List Path,
      tops.Pairwise (fun left right => ¬ left <+: right ∧ ¬ right <+: left) →
      ∃ parts ⊆ tree.paths, (∀ path ∈ parts, ∃ top ∈ tops, top <+: path) ∧
        (tops.map (tree.weightBelow size)).sum = ∑ path ∈ parts, tree.sizeAt size path := by
    intro tops
    induction tops with
    | nil => exact fun _ => ⟨∅, Finset.empty_subset _, by simp, by simp⟩
    | cons top tops ih =>
        intro hpairwise
        rcases List.pairwise_cons.mp hpairwise with ⟨htop, htops⟩
        rcases ih htops with ⟨parts, hsubset, hparts, hsum⟩
        have hbelow : ∀ path ∈ tree.below top, top <+: path := fun path hpath =>
          (mem_below.mp hpath).2.1
        have hdisjoint : Disjoint (tree.below top) parts := by
          rw [Finset.disjoint_left]
          intro path hpath hmem
          rcases hparts path hmem with ⟨other, hother, hstarts⟩
          rcases List.prefix_or_prefix_of_prefix (hbelow path hpath) hstarts with h | h
          · exact (htop other hother).1 h
          · exact (htop other hother).2 h
        refine ⟨tree.below top ∪ parts, Finset.union_subset (Finset.filter_subset _ _) hsubset,
          fun path hpath => ?_, ?_⟩
        · rcases Finset.mem_union.mp hpath with hmem | hmem
          · exact ⟨top, List.mem_cons_self, hbelow path hmem⟩
          · rcases hparts path hmem with ⟨other, hother, hstarts⟩
            exact ⟨other, List.mem_cons_of_mem _ hother, hstarts⟩
        · rw [Finset.sum_union hdisjoint, List.map_cons, List.sum_cons, hsum, weightBelow]
  rcases hpart tops hapart with ⟨parts, hsubset, -, hsum⟩
  rw [hsum]
  exact Finset.sum_le_sum_of_subset hsubset

end Sizes

end CheckPo.FileTree
