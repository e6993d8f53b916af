/-
The rows of an open change tree: every file once, and the entries of each folder in order.
-/
import CheckPo.ChangeTreeRows

namespace CheckPo

def rowFile (row : ChangeTreeRow) : Option ChangeFile :=
  match row.item with
  | .folder _ _ _ => none
  | .file change => some change

/-- The rows under a parent key. -/
def rowsOf (rows : List ChangeTreeRow) (key : Option String) : List ChangeTreeRow :=
  rows.filter fun row => decide (row.parentKey = key)

/-- The rows are those of the node's entries, numbered from one on. -/
structure Siblings (node : ChangeTreeNode) (rows : List ChangeTreeRow) : Prop where
  keys : (rows.map ChangeTreeRow.key).Perm
    (node.children.map (fun child => folderKey (compressedChangeFolder child).1) ++
      node.files.map fileKey)
  positions : rows.map ChangeTreeRow.posInSet = List.range' 1 rows.length
  sizes : ∀ row ∈ rows, row.setSize = rows.length

theorem rowsOf_append (left right : List ChangeTreeRow) (key : Option String) :
    rowsOf (left ++ right) key = rowsOf left key ++ rowsOf right key :=
  List.filter_append ..

theorem rowsOf_eq_nil {rows : List ChangeTreeRow} {key : Option String}
    (h : ∀ row ∈ rows, row.parentKey ≠ key) : rowsOf rows key = [] := by
  rw [rowsOf, List.filter_eq_nil_iff]
  intro row hrow
  simpa using h row hrow

theorem rowsOf_eq_self {rows : List ChangeTreeRow} {key : Option String}
    (h : ∀ row ∈ rows, row.parentKey = key) : rowsOf rows key = rows := by
  rw [rowsOf, List.filter_eq_self]
  intro row hrow
  simpa using h row hrow

section Rows

variable {localeCompare : String → String → Ordering} {openPaths : Finset String}
  {segments : Path} {parent : ChangeTreeNode} {depth setSize : Nat} {parentKey : Option String}

/-! Files. -/

theorem mem_folderPaths {root child : ChangeTreeNode} {path : String}
    (hchild : child ∈ root.children)
    (h : path = (compressedChangeFolder child).1.path ∨
      path ∈ collectChangeTreeFolderPaths (compressedChangeFolder child).1) :
    path ∈ collectChangeTreeFolderPaths root := by
  rw [collectChangeTreeFolderPaths_eq, List.mem_flatMap]
  exact ⟨child, hchild, List.mem_cons.mpr h⟩

/-- Open rows show the files of the tree. -/
theorem files_perm (hopen : ∀ path ∈ collectChangeTreeFolderPaths parent, path ∈ openPaths) :
    ((appendChildren localeCompare openPaths parent depth parentKey).filterMap rowFile).Perm
      (collectFiles parent) := by
  induction parent using chainInduction generalizing depth parentKey with
  | step parent ih =>
      have hblock : ∀ entry ∈ (sortFolders localeCompare parent.children).zipIdx,
          ((folderBlock localeCompare openPaths parentKey depth
            (parent.children.length + parent.files.length) entry).filterMap rowFile).Perm
            (collectFiles entry.1) := by
        intro entry hentry
        have hchild := mem_children_of_entry hentry
        have hself := hopen _ (mem_folderPaths hchild (Or.inl rfl))
        rw [folderBlock, if_pos hself, List.filterMap_cons_none (by rfl),
          ← collectFiles_compressed entry.1]
        exact ih entry.1 hchild fun path hpath => hopen path (mem_folderPaths hchild (Or.inr hpath))
      have hfolders : ((sortFolders localeCompare parent.children).zipIdx.flatMap fun entry =>
          collectFiles entry.1) = (sortFolders localeCompare parent.children).flatMap
            collectFiles := by
        conv_rhs => rw [← List.zipIdx_map_fst 0 (sortFolders localeCompare parent.children),
          List.flatMap_map]
      have hrows : ((sortFiles localeCompare parent.files).zipIdx.map
          (fileRow parentKey depth (parent.children.length + parent.files.length)
            parent.children.length)).filterMap rowFile = sortFiles localeCompare parent.files := by
        have hfile : rowFile ∘ fileRow parentKey depth
            (parent.children.length + parent.files.length) parent.children.length =
            some ∘ Prod.fst := rfl
        rw [List.filterMap_map, hfile, List.filterMap_eq_map]
        exact List.zipIdx_map_fst 0 _
      rw [appendChildren_eq, List.filterMap_append, List.filterMap_flatMap, hrows, collectFiles_eq]
      apply (List.perm_append_comm.trans _)
      apply (List.mergeSort_perm parent.files _).append
      apply (List.Perm.flatMap_left _ hblock).trans
      rw [hfolders]
      exact (List.mergeSort_perm parent.children _).flatMap_right _

/-! Parents. -/

/-- The key of an open folder row. -/
def OpenOwner (rows : List ChangeTreeRow) (key : Option String) : Prop :=
  ∃ owner ∈ rows, key = some owner.key ∧ ∃ node names, owner.item = .folder node names true

theorem OpenOwner.mono {rows more : List ChangeTreeRow} {key : Option String}
    (h : OpenOwner rows key) (hmore : ∀ row ∈ rows, row ∈ more) : OpenOwner more key := by
  rcases h with ⟨owner, howner, hkey, hitem⟩
  exact ⟨owner, hmore owner howner, hkey, hitem⟩

theorem parent_block_of_nested {entry : ChangeTreeNode × Nat} {row : ChangeTreeRow}
    (hnested : ∀ {depth : Nat} {key : Option String},
      ∀ row ∈ appendChildren localeCompare openPaths (compressedChangeFolder entry.1).1 depth key,
        row.parentKey = key ∨
          OpenOwner (appendChildren localeCompare openPaths (compressedChangeFolder entry.1).1
            depth key) row.parentKey)
    (hrow : row ∈ folderBlock localeCompare openPaths parentKey depth setSize entry) :
    row.parentKey = parentKey ∨
      OpenOwner (folderBlock localeCompare openPaths parentKey depth setSize entry)
        row.parentKey := by
  rw [folderBlock] at hrow ⊢
  split at hrow
  · next hopen =>
      rw [if_pos hopen]
      rcases List.mem_cons.mp hrow with rfl | hin
      · exact Or.inl rfl
      · rcases hnested row hin with hself | howner
        · have hitem : (folderRow openPaths parentKey depth setSize entry).item =
              .folder (compressedChangeFolder entry.1).1 (compressedChangeFolder entry.1).2 true := by
            rw [folderRow, decide_eq_true hopen]
          exact Or.inr ⟨_, List.mem_cons_self, hself, _, _, hitem⟩
        · exact Or.inr (howner.mono fun other hother => List.mem_cons_of_mem _ hother)
  · rw [List.mem_singleton] at hrow
    exact Or.inl (hrow ▸ rfl)

/-- A row hangs under the node or under an open folder row. -/
theorem parent_spec :
    ∀ row ∈ appendChildren localeCompare openPaths parent depth parentKey,
      row.parentKey = parentKey ∨
        OpenOwner (appendChildren localeCompare openPaths parent depth parentKey)
          row.parentKey := by
  induction parent using chainInduction generalizing depth parentKey with
  | step parent ih =>
      intro row hrow
      rw [appendChildren_eq] at hrow ⊢
      rcases List.mem_append.mp hrow with hin | hin
      · rcases List.mem_flatMap.mp hin with ⟨entry, hentry, hblock⟩
        apply (parent_block_of_nested (ih entry.1 (mem_children_of_entry hentry)) hblock).imp_right
        exact fun howner => howner.mono fun other hother =>
          List.mem_append_left _ (List.mem_flatMap.mpr ⟨entry, hentry, hother⟩)
      · rcases List.mem_map.mp hin with ⟨entry, -, rfl⟩
        exact Or.inl rfl

/-- In a block, a row hangs where the block hangs or under a row of the block. -/
theorem parent_inChild {entry : ChangeTreeNode × Nat} {row : ChangeTreeRow}
    (hsegments : ∀ name ∈ segments, PartName name) (h : Placed segments parent)
    (hentry : entry ∈ (sortFolders localeCompare parent.children).zipIdx)
    (hrow : row ∈ folderBlock localeCompare openPaths parentKey depth setSize entry) :
    row.parentKey = parentKey ∨
      ∃ key, row.parentKey = some key ∧ InChild segments entry.1.name key := by
  apply (parent_block_of_nested parent_spec hrow).imp_right
  rintro ⟨owner, howner, hkey, -⟩
  exact ⟨owner.key, hkey, key_inChild hsegments h hentry howner⟩

theorem folder_trans {root middle folder : ChangeTreeNode} (h : Folder root middle)
    (hfolder : Folder middle folder) : Folder root folder := by
  induction hfolder with
  | child hchild => exact h.deeper hchild
  | deeper _ hchild ih => exact ih.deeper hchild

/-! Siblings. -/

theorem rowsOf_flatMap {α : Type} (entries : List α) (block : α → List ChangeTreeRow)
    (key : Option String) :
    rowsOf (entries.flatMap block) key = entries.flatMap fun entry => rowsOf (block entry) key :=
  List.filter_flatMap

/-- Of a block, only its folder row hangs where the block hangs. -/
theorem rowsOf_block {entry : ChangeTreeNode × Nat}
    (hsegments : ∀ name ∈ segments, PartName name) (h : Placed segments parent)
    (hfresh : ∀ key, parentKey = some key → ¬ BelowKey segments key)
    (hentry : entry ∈ (sortFolders localeCompare parent.children).zipIdx) :
    rowsOf (folderBlock localeCompare openPaths parentKey depth setSize entry) parentKey =
      [folderRow openPaths parentKey depth setSize entry] := by
  have hchild := mem_children_of_entry hentry
  rcases compressed_spec (forall_append_partName hsegments (h.child_name hchild))
    (h.child_placed hchild) with ⟨more, hnames, hplaced⟩
  have hnested : rowsOf (if (compressedChangeFolder entry.1).1.path ∈ openPaths then
      appendChildren localeCompare openPaths (compressedChangeFolder entry.1).1 (depth + 1)
        (some (folderKey (compressedChangeFolder entry.1).1)) else []) parentKey = [] := by
    apply rowsOf_eq_nil
    intro row hrow heq
    have hown : InChild segments entry.1.name (folderKey (compressedChangeFolder entry.1).1) :=
      key_inChild hsegments h hentry (show _ ∈ folderBlock localeCompare openPaths parentKey depth
        setSize entry from List.mem_cons_self)
    split at hrow
    · rcases parent_spec row hrow with hself | ⟨owner, howner, hkey, -⟩
      · exact hfresh _ (heq.symm.trans hself) hown.below
      · apply hfresh _ (heq.symm.trans hkey)
        exact (inChild_of_below hplaced hnames (key_below hnames hplaced owner howner)).1.below
    · exact List.not_mem_nil hrow
  rw [folderBlock, ← List.singleton_append, rowsOf_append, hnested, List.append_nil]
  exact rowsOf_eq_self fun row hrow => List.mem_singleton.mp hrow ▸ rfl

theorem rowsOf_files (folders : Nat) (key : Option String) (hkey : key ≠ parentKey) :
    rowsOf ((sortFiles localeCompare parent.files).zipIdx.map
      (fileRow parentKey depth setSize folders)) key = [] := by
  apply rowsOf_eq_nil
  intro row hrow heq
  rcases List.mem_map.mp hrow with ⟨entry, -, rfl⟩
  exact hkey heq.symm

theorem positions_zipIdx {α : Type} (entries : List α) (start : Nat) :
    (entries.zipIdx.map fun entry => start + entry.2 + 1) =
      List.range' (start + 1) entries.length := by
  have hsecond : (fun entry : α × Nat => start + entry.2 + 1) =
      (fun position => (start + 1) + position) ∘ Prod.snd := by
    funext entry
    exact Nat.add_right_comm start entry.2 1
  rw [hsecond, ← List.map_map, List.zipIdx_map_snd, List.map_add_range', Nat.add_zero]

/-- The rows that hang under the node are those of its own entries. -/
theorem siblings_own (hsegments : ∀ name ∈ segments, PartName name) (h : Placed segments parent)
    (hfresh : ∀ key, parentKey = some key → ¬ BelowKey segments key) :
    Siblings parent
      (rowsOf (appendChildren localeCompare openPaths parent depth parentKey) parentKey) := by
  have hrows : rowsOf (appendChildren localeCompare openPaths parent depth parentKey) parentKey =
      (sortFolders localeCompare parent.children).zipIdx.map
        (folderRow openPaths parentKey depth (parent.children.length + parent.files.length)) ++
      (sortFiles localeCompare parent.files).zipIdx.map
        (fileRow parentKey depth (parent.children.length + parent.files.length)
          parent.children.length) := by
    rw [appendChildren_eq, rowsOf_append, rowsOf_flatMap,
      List.flatMap_congr fun entry hentry => rowsOf_block hsegments h hfresh hentry,
      ← List.map_eq_flatMap]
    congr 1
    apply rowsOf_eq_self
    intro row hrow
    rcases List.mem_map.mp hrow with ⟨entry, -, rfl⟩
    rfl
  have hfolders : (sortFolders localeCompare parent.children).length = parent.children.length :=
    List.length_mergeSort _
  have hfiles : (sortFiles localeCompare parent.files).length = parent.files.length :=
    List.length_mergeSort _
  rw [hrows]
  constructor
  · rw [List.map_append, fileRows_map fileKey parent.children.length ChangeTreeRow.key fun _ => rfl]
    apply List.Perm.append
    · have hkeys : (sortFolders localeCompare parent.children).zipIdx.map
          (ChangeTreeRow.key ∘ folderRow openPaths parentKey depth
            (parent.children.length + parent.files.length)) =
          (sortFolders localeCompare parent.children).map fun child =>
            folderKey (compressedChangeFolder child).1 := by
        conv_rhs => rw [← List.zipIdx_map_fst 0 (sortFolders localeCompare parent.children)]
        rw [List.map_map]
        rfl
      rw [List.map_map, hkeys]
      exact (List.mergeSort_perm parent.children _).map _
    · exact (List.mergeSort_perm parent.files _).map fileKey
  · have hfirst := positions_zipIdx (sortFolders localeCompare parent.children) 0
    have hsecond := positions_zipIdx (sortFiles localeCompare parent.files) parent.children.length
    simp only [Nat.zero_add] at hfirst
    rw [List.map_append, List.map_map, List.map_map, List.length_append, List.length_map,
      List.length_map, List.length_zipIdx, List.length_zipIdx, ← List.range'_append_1,
      ← hfirst, hfolders, Nat.add_comm 1, ← hsecond]
    rfl
  · intro row hrow
    rw [List.length_append, List.length_map, List.length_map, List.length_zipIdx,
      List.length_zipIdx, hfolders, hfiles]
    rcases List.mem_append.mp hrow with hin | hin
    · rcases List.mem_map.mp hin with ⟨entry, -, rfl⟩
      rfl
    · rcases List.mem_map.mp hin with ⟨entry, -, rfl⟩
      rfl

/-- What hangs under a row of a block is in the block. -/
theorem rowsOf_inChild {entry : ChangeTreeNode × Nat} {key : String}
    (hsegments : ∀ name ∈ segments, PartName name) (h : Placed segments parent)
    (hfresh : ∀ key, parentKey = some key → ¬ BelowKey segments key)
    (hentry : entry ∈ (sortFolders localeCompare parent.children).zipIdx)
    (hkey : InChild segments entry.1.name key) :
    rowsOf (appendChildren localeCompare openPaths parent depth parentKey) (some key) =
      rowsOf (folderBlock localeCompare openPaths parentKey depth
        (parent.children.length + parent.files.length) entry) (some key) := by
  have hne : some key ≠ parentKey := fun heq => hfresh key heq.symm hkey.below
  have hnames : ((sortFolders localeCompare parent.children).zipIdx.map
      fun entry => entry.1.name).Nodup := List.pairwise_map.mpr (entries_pairwise h)
  rw [appendChildren_eq, rowsOf_append, rowsOf_files _ _ hne, List.append_nil, rowsOf_flatMap]
  apply flatMap_eq_of_unique hnames hentry
  intro other hother hname
  apply rowsOf_eq_nil
  intro row hrow heq
  rcases parent_inChild hsegments h hother hrow with hself | ⟨owner, howner, hin⟩
  · exact hne (heq.symm.trans hself)
  · have hsame : owner = key := Option.some_injective _ (howner.symm.trans heq)
    exact hname (inChild_unique (hsame ▸ hin) hkey)

/-- The rows that hang under a folder row are those of the folder's entries, if it is open. -/
theorem siblings_below (hsegments : ∀ name ∈ segments, PartName name) (h : Placed segments parent)
    (hfresh : ∀ key, parentKey = some key → ¬ BelowKey segments key) :
    ∀ row ∈ appendChildren localeCompare openPaths parent depth parentKey,
      ∀ node names, row.item = .folder node names true →
        Siblings node (rowsOf (appendChildren localeCompare openPaths parent depth parentKey)
          (some row.key)) := by
  induction parent using chainInduction generalizing segments depth parentKey with
  | step parent ih =>
      intro row hrow node names hitem
      have hrow' := hrow
      rw [appendChildren_eq, List.mem_append, List.mem_flatMap, List.mem_map] at hrow'
      rcases hrow' with ⟨entry, hentry, hin⟩ | ⟨entry, -, rfl⟩
      · have hkey := key_inChild hsegments h hentry hin
        have hchild := mem_children_of_entry hentry
        rcases compressed_spec (forall_append_partName hsegments (h.child_name hchild))
          (h.child_placed hchild) with ⟨more, hnames, hplaced⟩
        rw [rowsOf_inChild hsegments h hfresh hentry hkey]
        have hne : parentKey ≠ some row.key := fun heq => hfresh row.key heq hkey.below
        rw [folderBlock] at hin ⊢
        rw [← List.singleton_append, rowsOf_append,
          rowsOf_eq_nil fun other hother => List.mem_singleton.mp hother ▸ hne, List.nil_append]
        have hinner : ∀ key, some (folderKey (compressedChangeFolder entry.1).1) = some key →
            ¬ BelowKey (segments ++ [entry.1.name] ++ more) key := by
          intro key heq hbelow
          exact (inChild_of_below hplaced hnames hbelow).2 (Option.some_injective _ heq).symm
        rcases List.mem_cons.mp hin with rfl | hnested
        · rw [folderRow, ChangeTreeItem.folder.injEq] at hitem
          rcases hitem with ⟨rfl, -, hopen⟩
          rw [if_pos (of_decide_eq_true hopen)]
          exact siblings_own hnames hplaced hinner
        · split at hnested
          · next hopen =>
              rw [if_pos hopen]
              exact ih entry.1 hchild hnames hplaced hinner row hnested node names hitem
          · exact absurd hnested List.not_mem_nil
      · exact ChangeTreeItem.noConfusion hitem

/-- With every folder path open, every folder row is open. -/
theorem folder_open (hopen : ∀ path ∈ collectChangeTreeFolderPaths parent, path ∈ openPaths) :
    ∀ row ∈ appendChildren localeCompare openPaths parent depth parentKey,
      ∀ node names isOpen, row.item = .folder node names isOpen →
        isOpen = true ∧ Folder parent node ∧ row.key = folderKey node := by
  induction parent using chainInduction generalizing depth parentKey with
  | step parent ih =>
      intro row hrow node names isOpen hitem
      rw [appendChildren_eq, List.mem_append, List.mem_flatMap, List.mem_map] at hrow
      rcases hrow with ⟨entry, hentry, hin⟩ | ⟨entry, -, rfl⟩
      · have hchild := mem_children_of_entry hentry
        have hself := hopen _ (mem_folderPaths hchild (Or.inl rfl))
        rw [folderBlock, if_pos hself] at hin
        rcases List.mem_cons.mp hin with rfl | hnested
        · rw [folderRow, ChangeTreeItem.folder.injEq] at hitem
          rcases hitem with ⟨rfl, -, rfl⟩
          exact ⟨decide_eq_true hself, folder_of_compressed (.child hchild), rfl⟩
        · have hdeeper : ∀ path ∈ collectChangeTreeFolderPaths (compressedChangeFolder entry.1).1,
              path ∈ openPaths :=
            fun path hpath => hopen path (mem_folderPaths hchild (Or.inr hpath))
          rcases ih entry.1 hchild hdeeper row hnested node names isOpen hitem with
            ⟨hnode, hfolder, hkey⟩
          exact ⟨hnode, folder_trans (folder_of_compressed (.child hchild)) hfolder, hkey⟩
      · exact ChangeTreeItem.noConfusion hitem

end Rows

/-! The tree of a list of changes. -/

section Changes

variable {changes : List Change}

/-- The changes beneath a folder are the folder's files. -/
theorem filter_beneath_changes (hpaths : ∀ change ∈ changes, IsSlashPath change.path)
    {folder : ChangeTreeNode} (hfolder : Folder (buildChangeTreeModel changes) folder) :
    ((collectFiles folder).map ChangeFile.toChange).Perm
      (changes.filter fun change => beneath folder.path change.path) := by
  rcases buildChangeTreeModel_spec hpaths with ⟨hplaced, hperm⟩
  have hfilter := filter_beneath_folder (by simp) hplaced hfolder
  rw [← hfilter]
  have hmap : ((collectFiles (buildChangeTreeModel changes)).filter fun file =>
      beneath folder.path file.path).map ChangeFile.toChange =
      ((collectFiles (buildChangeTreeModel changes)).map ChangeFile.toChange).filter
        fun change => beneath folder.path change.path := by
    rw [List.filter_map]
    rfl
  rw [hmap]
  exact hperm.filter _

theorem paths_perm {node : ChangeTreeNode} {found : List Change}
    (h : ((collectFiles node).map ChangeFile.toChange).Perm found) :
    (collectChangeTreeFilePaths node).Perm (found.map Change.path) := by
  rw [collectChangeTreeFilePaths_eq]
  have hmap := h.map Change.path
  rwa [List.map_map] at hmap

/-- A folder beside a file of the same name, and a chain of folders. -/
def sampleChanges : List Change :=
  [⟨"a/b/c", .added⟩, ⟨"a", .deleted⟩, ⟨"a/b/d", .modified⟩]

end Changes

end CheckPo
