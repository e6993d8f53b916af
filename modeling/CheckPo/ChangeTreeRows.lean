/-
The rows of an open change tree: every file once, under different keys, and the entries of
each folder in their order.
-/
import CheckPo.ChangeTreeBuild

namespace CheckPo

/-! Compressed chains. -/

/-- A chain holds what its last folder holds. -/
theorem collectFiles_compressed (node : ChangeTreeNode) :
    collectFiles (compressedChangeFolder node).1 = collectFiles node := by
  induction node using ChangeTreeNode.childInduction with
  | step node ih =>
      rw [compressedChangeFolder.eq_def]
      split
      · next name path child counts =>
          rw [ih child List.mem_cons_self, collectFiles_eq (.mk name path [child] [] counts)]
          simp [ChangeTreeNode.files, ChangeTreeNode.children]
      · rfl

/-- The last folder of a chain is the folder itself or one below. -/
theorem compressed_spec {segments : Path} {node : ChangeTreeNode}
    (hsegments : ∀ name ∈ segments, PartName name) (h : Placed segments node) :
    ∃ more, (∀ name ∈ segments ++ more, PartName name) ∧
      Placed (segments ++ more) (compressedChangeFolder node).1 := by
  induction node using ChangeTreeNode.childInduction generalizing segments with
  | step node ih =>
      rw [compressedChangeFolder.eq_def]
      split
      · next name path child counts =>
          have hchild : child ∈ (ChangeTreeNode.mk name path [child] [] counts).children :=
            List.mem_cons_self
          rcases ih child hchild (forall_append_partName hsegments (h.child_name hchild))
            (h.child_placed hchild) with ⟨more, hnames, hplaced⟩
          rw [List.append_assoc, List.singleton_append] at hnames hplaced
          exact ⟨child.name :: more, hnames, hplaced⟩
      · exact ⟨[], by simpa using hsegments, by simpa using h⟩

theorem folder_of_compressed {root node : ChangeTreeNode} (h : Folder root node) :
    Folder root (compressedChangeFolder node).1 := by
  induction node using ChangeTreeNode.childInduction with
  | step node ih =>
      rw [compressedChangeFolder.eq_def]
      split
      · next name path child counts =>
          have hchild : child ∈ (ChangeTreeNode.mk name path [child] [] counts).children :=
            List.mem_cons_self
          exact ih child hchild (h.deeper hchild)
      · exact h

/-! Rows and blocks. -/

section Rows

variable (localeCompare : String → String → Ordering) (openPaths : Finset String)

def folderRow (parentKey : Option String) (depth setSize : Nat) (entry : ChangeTreeNode × Nat) :
    ChangeTreeRow :=
  let folder := compressedChangeFolder entry.1
  { key := folderKey folder.1
    parentKey := parentKey
    depth := depth
    posInSet := entry.2 + 1
    setSize := setSize
    item := .folder folder.1 folder.2 (decide (folder.1.path ∈ openPaths)) }

/-- The row of a child and the rows below it. -/
def folderBlock (parentKey : Option String) (depth setSize : Nat) (entry : ChangeTreeNode × Nat) :
    List ChangeTreeRow :=
  let folder := (compressedChangeFolder entry.1).1
  folderRow openPaths parentKey depth setSize entry ::
  if folder.path ∈ openPaths then
    appendChildren localeCompare openPaths folder (depth + 1) (some (folderKey folder))
  else []

def fileRow (parentKey : Option String) (depth setSize folders : Nat) (entry : ChangeFile × Nat) :
    ChangeTreeRow :=
  { key := fileKey entry.1
    parentKey := parentKey
    depth := depth
    posInSet := folders + entry.2 + 1
    setSize := setSize
    item := .file entry.1 }

theorem appendChildren_eq (parent : ChangeTreeNode) (depth : Nat) (parentKey : Option String) :
    appendChildren localeCompare openPaths parent depth parentKey =
      (sortFolders localeCompare parent.children).zipIdx.flatMap
        (folderBlock localeCompare openPaths parentKey depth
          (parent.children.length + parent.files.length)) ++
      (sortFiles localeCompare parent.files).zipIdx.map
        (fileRow parentKey depth (parent.children.length + parent.files.length)
          parent.children.length) := by
  have hfolders : (sortFolders localeCompare parent.children).length = parent.children.length :=
    List.length_mergeSort _
  have hfiles : (sortFiles localeCompare parent.files).length = parent.files.length :=
    List.length_mergeSort _
  have hattach : (sortFolders localeCompare parent.children).zipIdx =
      (sortFolders localeCompare parent.children).attach.zipIdx.map
        (Prod.map Subtype.val id) := by
    rw [← List.zipIdx_map, List.attach_map_subtype_val]
  rw [appendChildren, hattach, List.flatMap_map, hfolders, hfiles]
  simp only [decide_eq_true_eq]
  rfl

/-- What passes from the ends of the chains below a node to the node holds of all nodes. -/
theorem chainInduction {motive : ChangeTreeNode → Prop}
    (step : ∀ parent, (∀ child ∈ parent.children, motive (compressedChangeFolder child).1) →
      motive parent) (node : ChangeTreeNode) : motive node :=
  step node fun child _ => chainInduction step (compressedChangeFolder child).1
termination_by sizeOf node
decreasing_by exact (sizeOf_compressed_le child).trans_lt (ChangeTreeNode.sizeOf_child_lt ‹_›)

theorem collectChangeTreeFolderPaths_eq (root : ChangeTreeNode) :
    collectChangeTreeFolderPaths root = root.children.flatMap fun child =>
      (compressedChangeFolder child).1.path ::
        collectChangeTreeFolderPaths (compressedChangeFolder child).1 := by
  rw [collectChangeTreeFolderPaths]
  have hattach : root.children.attach.map Subtype.val = root.children :=
    List.attach_map_subtype_val _
  conv_rhs => rw [← hattach, List.flatMap_map]

/-! Keys. -/

/-- A key names a kind and a path. -/
def IsKey (kind : String) (parts : Path) (key : String) : Prop :=
  (kind = "folder:" ∨ kind = "file:") ∧ key = kind ++ joinParts parts

theorem isKey_unique {kind other : String} {parts others : Path} {key : String}
    (hkey : IsKey kind parts key) (hother : IsKey other others key)
    (hparts : ∀ name ∈ parts, PartName name) (hothers : ∀ name ∈ others, PartName name)
    (hne : parts ≠ []) (hotherNe : others ≠ []) : kind = other ∧ parts = others := by
  have hjoined : kind ++ joinParts parts = other ++ joinParts others := hkey.2.symm.trans hother.2
  have hlist := congrArg String.toList hjoined
  rw [String.toList_append, String.toList_append] at hlist
  have hkind : kind = other := by
    rcases hkey.1 with rfl | rfl <;> rcases hother.1 with rfl | rfl
    · rfl
    · exact absurd (congrArg (fun chars : List Char => chars[1]?) hlist) (by simp)
    · exact absurd (congrArg (fun chars : List Char => chars[1]?) hlist) (by simp)
    · rfl
  subst hkind
  rw [List.append_cancel_left_eq] at hlist
  exact ⟨rfl, joinParts_injective hparts hothers hne hotherNe (String.toList_injective hlist)⟩

/-- The key of something in a child: the child's folder row, or a row below it. -/
def InChild (segments : Path) (name key : String) : Prop :=
  ∃ kind rest, IsKey kind (segments ++ name :: rest) key ∧
    (∀ part ∈ segments ++ name :: rest, PartName part) ∧ (kind = "file:" → rest ≠ [])

/-- The key of something below a node. -/
def BelowKey (segments : Path) (key : String) : Prop :=
  ∃ kind rest, IsKey kind (segments ++ rest) key ∧
    (∀ part ∈ segments ++ rest, PartName part) ∧ rest ≠ []

theorem InChild.below {segments : Path} {name key : String} (h : InChild segments name key) :
    BelowKey segments key := by
  rcases h with ⟨kind, rest, hkey, hparts, -⟩
  exact ⟨kind, name :: rest, hkey, hparts, List.cons_ne_nil _ _⟩

theorem inChild_unique {segments : Path} {name other key : String}
    (h : InChild segments name key) (hother : InChild segments other key) : name = other := by
  rcases h with ⟨kind, rest, hkey, hparts, -⟩
  rcases hother with ⟨otherKind, otherRest, hotherKey, hotherParts, -⟩
  have hsame := (isKey_unique hkey hotherKey hparts hotherParts (by simp) (by simp)).2
  rw [List.append_cancel_left_eq, List.cons.injEq] at hsame
  exact hsame.1

/-- No folder row and no row below a folder has the key of a file beside it. -/
theorem fileKey_not_inChild {segments : Path} {name : String} {file : ChangeFile}
    (hsegments : ∀ part ∈ segments, PartName part) (hname : PartName file.name)
    (hpath : file.path = joinParts (segments ++ [file.name])) :
    ¬ InChild segments name (fileKey file) := by
  rintro ⟨kind, rest, hkey, hparts, hrest⟩
  have hfile : IsKey "file:" (segments ++ [file.name]) (fileKey file) :=
    ⟨Or.inr rfl, by rw [fileKey, hpath]⟩
  rcases isKey_unique hkey hfile hparts (forall_append_partName hsegments hname) (by simp)
    (by simp) with ⟨rfl, hsame⟩
  rw [List.append_cancel_left_eq, List.cons.injEq] at hsame
  exact hrest rfl hsame.2

variable {localeCompare openPaths}

theorem folderKey_isKey {segments : Path} {node : ChangeTreeNode} (h : Placed segments node) :
    IsKey "folder:" segments (folderKey node) :=
  ⟨Or.inl rfl, by rw [folderKey, h.path_eq]⟩

theorem mem_children_of_entry {parent : ChangeTreeNode} {entry : ChangeTreeNode × Nat}
    (h : entry ∈ (sortFolders localeCompare parent.children).zipIdx) :
    entry.1 ∈ parent.children :=
  List.mem_mergeSort.mp (List.fst_mem_of_mem_zipIdx h)

theorem mem_files_of_entry {parent : ChangeTreeNode} {entry : ChangeFile × Nat}
    (h : entry ∈ (sortFiles localeCompare parent.files).zipIdx) : entry.1 ∈ parent.files :=
  List.mem_mergeSort.mp (List.fst_mem_of_mem_zipIdx h)

theorem entries_pairwise {segments : Path} {parent : ChangeTreeNode} (h : Placed segments parent) :
    (sortFolders localeCompare parent.children).zipIdx.Pairwise fun left right =>
      left.1.name ≠ right.1.name := by
  have hsorted : ((sortFolders localeCompare parent.children).map ChangeTreeNode.name).Nodup :=
    ((List.mergeSort_perm parent.children _).map ChangeTreeNode.name).nodup_iff.mpr h.names_nodup
  rw [← List.zipIdx_map_fst 0 (sortFolders localeCompare parent.children), List.map_map] at hsorted
  exact List.pairwise_map.mp hsorted

/-- What is below the last folder of a child's chain is in the child, and is not that folder. -/
theorem inChild_of_below {segments more : Path} {name key : String} {folder : ChangeTreeNode}
    (hplaced : Placed (segments ++ [name] ++ more) folder)
    (hnames : ∀ part ∈ segments ++ [name] ++ more, PartName part)
    (h : BelowKey (segments ++ [name] ++ more) key) :
    InChild segments name key ∧ key ≠ folderKey folder := by
  rcases h with ⟨kind, rest, hkey, hparts, hrest⟩
  constructor
  · exact ⟨kind, more ++ rest, by simpa using hkey, by simpa using hparts, fun _ => by simp [hrest]⟩
  · rintro rfl
    have hsame := (isKey_unique hkey (folderKey_isKey hplaced) hparts hnames (by simp) (by simp)).2
    exact hrest (by simpa using hsame)

section Below

variable {segments : Path} {parent : ChangeTreeNode} {depth setSize : Nat}
  {parentKey : Option String}

theorem fileKey_below {file : ChangeFile} (hsegments : ∀ name ∈ segments, PartName name)
    (h : Placed segments parent) (hfile : file ∈ parent.files) :
    BelowKey segments (fileKey file) :=
  ⟨"file:", [file.name], ⟨Or.inr rfl, by rw [fileKey, h.file_path hfile]⟩,
    forall_append_partName hsegments (h.file_name hfile), List.cons_ne_nil _ _⟩

theorem key_inChild_of_nested {entry : ChangeTreeNode × Nat} {row : ChangeTreeRow}
    (hsegments : ∀ name ∈ segments, PartName name) (h : Placed segments parent)
    (hentry : entry ∈ (sortFolders localeCompare parent.children).zipIdx)
    (hnested : ∀ {inner : Path} {depth : Nat} {key : Option String},
      (∀ name ∈ inner, PartName name) → Placed inner (compressedChangeFolder entry.1).1 →
      ∀ row ∈ appendChildren localeCompare openPaths (compressedChangeFolder entry.1).1 depth key,
        BelowKey inner row.key)
    (hrow : row ∈ folderBlock localeCompare openPaths parentKey depth setSize entry) :
    InChild segments entry.1.name row.key := by
  have hchild := mem_children_of_entry hentry
  rcases compressed_spec (forall_append_partName hsegments (h.child_name hchild))
    (h.child_placed hchild) with ⟨more, hnames, hplaced⟩
  rw [folderBlock, List.mem_cons] at hrow
  rcases hrow with rfl | hrow
  · have hkey := folderKey_isKey hplaced
    rw [List.append_assoc, List.singleton_append] at hkey
    exact ⟨"folder:", more, hkey, by simpa using hnames, by simp⟩
  · split at hrow
    · exact (inChild_of_below hplaced hnames (hnested hnames hplaced row hrow)).1
    · exact absurd hrow List.not_mem_nil

/-- The rows below a node have keys of something below the node. -/
theorem key_below (hsegments : ∀ name ∈ segments, PartName name) (h : Placed segments parent) :
    ∀ row ∈ appendChildren localeCompare openPaths parent depth parentKey,
      BelowKey segments row.key := by
  induction parent using chainInduction generalizing segments depth parentKey with
  | step parent ih =>
      intro row hrow
      rw [appendChildren_eq, List.mem_append, List.mem_flatMap, List.mem_map] at hrow
      rcases hrow with ⟨entry, hentry, hin⟩ | ⟨entry, hentry, rfl⟩
      · exact (key_inChild_of_nested hsegments h hentry
          (ih entry.1 (mem_children_of_entry hentry)) hin).below
      · exact fileKey_below hsegments h (mem_files_of_entry hentry)

theorem key_inChild {entry : ChangeTreeNode × Nat} {row : ChangeTreeRow}
    (hsegments : ∀ name ∈ segments, PartName name) (h : Placed segments parent)
    (hentry : entry ∈ (sortFolders localeCompare parent.children).zipIdx)
    (hrow : row ∈ folderBlock localeCompare openPaths parentKey depth setSize entry) :
    InChild segments entry.1.name row.key :=
  key_inChild_of_nested hsegments h hentry key_below hrow

theorem fileKeys_nodup
    (hfiles : ((collectFiles parent).map fun file => file.path).Nodup) :
    ((sortFiles localeCompare parent.files).map fileKey).Nodup := by
  have hown : (parent.files.map fun file => file.path).Nodup := by
    refine List.Nodup.sublist (List.Sublist.map _ ?_) hfiles
    rw [collectFiles_eq]
    exact List.sublist_append_left _ _
  have hsorted : ((sortFiles localeCompare parent.files).map fun file => file.path).Nodup :=
    ((List.mergeSort_perm parent.files _).map _).nodup_iff.mpr hown
  rw [List.Nodup, List.pairwise_map] at hsorted ⊢
  apply hsorted.imp
  intro left right hne heq
  rw [fileKey, fileKey, ← String.toList_inj, String.toList_append, String.toList_append,
    List.append_cancel_left_eq, String.toList_inj] at heq
  exact hne heq

theorem fileRows_map {α : Type} (f : ChangeFile → α) (folders : Nat) (g : ChangeTreeRow → α)
    (hg : ∀ entry, g (fileRow parentKey depth setSize folders entry) = f entry.1) :
    ((sortFiles localeCompare parent.files).zipIdx.map
      (fileRow parentKey depth setSize folders)).map g =
      (sortFiles localeCompare parent.files).map f := by
  conv_rhs => rw [← List.zipIdx_map_fst 0 (sortFiles localeCompare parent.files)]
  rw [List.map_map, List.map_map]
  exact List.map_congr_left fun entry _ => hg entry

/-- No two rows have one key. -/
theorem keys_nodup (hsegments : ∀ name ∈ segments, PartName name) (h : Placed segments parent)
    (hfiles : ((collectFiles parent).map fun file => file.path).Nodup) :
    ((appendChildren localeCompare openPaths parent depth parentKey).map
      ChangeTreeRow.key).Nodup := by
  induction parent using chainInduction generalizing segments depth parentKey with
  | step parent ih =>
      have hblock : ∀ entry ∈ (sortFolders localeCompare parent.children).zipIdx,
          ((folderBlock localeCompare openPaths parentKey depth
            (parent.children.length + parent.files.length) entry).map ChangeTreeRow.key).Nodup := by
        intro entry hentry
        have hchild := mem_children_of_entry hentry
        rcases compressed_spec (forall_append_partName hsegments (h.child_name hchild))
          (h.child_placed hchild) with ⟨more, hnames, hplaced⟩
        rw [folderBlock, List.map_cons, List.nodup_cons]
        split
        · constructor
          · intro hin
            rcases List.mem_map.mp hin with ⟨row, hrow, hkey⟩
            exact (inChild_of_below hplaced hnames (key_below hnames hplaced row hrow)).2 hkey
          · apply ih entry.1 hchild hnames hplaced
            rw [collectFiles_compressed, ← filter_beneath_child hsegments h hchild]
            exact List.Nodup.sublist (List.filter_sublist.map _) hfiles
        · exact ⟨List.not_mem_nil, List.nodup_nil⟩
      rw [appendChildren_eq, List.map_append, List.map_flatMap,
        fileRows_map fileKey parent.children.length ChangeTreeRow.key fun _ => rfl,
        List.nodup_append]
      refine ⟨List.nodup_flatMap.mpr ⟨hblock, ?_⟩, fileKeys_nodup hfiles, ?_⟩
      · apply (entries_pairwise h).imp_of_mem
        intro left right hleft hright hne
        apply List.disjoint_left.mpr
        intro key hkey hother
        rcases List.mem_map.mp hkey with ⟨row, hrow, rfl⟩
        rcases List.mem_map.mp hother with ⟨other, hother, hsame⟩
        exact hne (inChild_unique (key_inChild hsegments h hleft hrow)
          (hsame ▸ key_inChild hsegments h hright hother))
      · intro key hkey other hother heq
        subst heq
        rcases List.mem_flatMap.mp hkey with ⟨entry, hentry, hin⟩
        rcases List.mem_map.mp hin with ⟨row, hrow, hrowKey⟩
        rcases List.mem_map.mp hother with ⟨file, hfile, hfileKey⟩
        have hfileMem : file ∈ parent.files := List.mem_mergeSort.mp hfile
        apply fileKey_not_inChild hsegments (h.file_name hfileMem) (h.file_path hfileMem)
        rw [hfileKey, ← hrowKey]
        exact key_inChild hsegments h hentry hrow

end Below

end Rows

end CheckPo
