/-
What the change tree holds: every change once, in the folder of its path, and counted in
every folder above it.
-/
import CheckPo.ChangeTree

namespace CheckPo

/-! The files of a tree. -/

mutual

def collectFiles : ChangeTreeNode → List ChangeFile
  | .mk _ _ children files _ => files ++ collectChildren children

def collectChildren : List ChangeTreeNode → List ChangeFile
  | [] => []
  | child :: rest => collectFiles child ++ collectChildren rest

end

theorem collectChildren_eq (children : List ChangeTreeNode) :
    collectChildren children = children.flatMap collectFiles := by
  induction children with
  | nil => rfl
  | cons child rest ih => rw [collectChildren, ih, List.flatMap_cons]

theorem collectFiles_eq (node : ChangeTreeNode) :
    collectFiles node = node.files ++ node.children.flatMap collectFiles := by
  cases node
  rw [collectFiles, collectChildren_eq]
  rfl

theorem collectChildrenFilePaths_eq (children : List ChangeTreeNode) :
    collectChildrenFilePaths children = children.flatMap collectChangeTreeFilePaths := by
  induction children with
  | nil => rfl
  | cons child rest ih => rw [collectChildrenFilePaths, ih, List.flatMap_cons]

/-- The walk over the paths is the walk over the files. -/
theorem collectChangeTreeFilePaths_eq (node : ChangeTreeNode) :
    collectChangeTreeFilePaths node = (collectFiles node).map fun file => file.path := by
  induction node using ChangeTreeNode.childInduction with
  | step node ih =>
      cases node with
      | mk name path children files counts =>
          rw [collectChangeTreeFilePaths, collectChildrenFilePaths_eq, collectFiles,
            collectChildren_eq, List.map_append, List.map_flatMap]
          congr 1
          exact List.flatMap_congr ih

/-! Folders. -/

/-- The folders below a node. -/
inductive Folder (root : ChangeTreeNode) : ChangeTreeNode → Prop
  | child {folder} : folder ∈ root.children → Folder root folder
  | deeper {parent folder} : Folder root parent → folder ∈ parent.children → Folder root folder

/-- A change of a kind. -/
def ofType (type : ChangeType) (change : Change) : Bool := change.type == type

def Tallied (node : ChangeTreeNode) : Prop :=
  ∀ type, node.counts.get type =
    ((collectFiles node).map ChangeFile.toChange).countP (ofType type)

/-- A name that a part of a path can be. -/
def PartName (name : String) : Prop := name ≠ "" ∧ PlainName name

/-- The node stands at the path of its segments, and so do the nodes and files below it. -/
inductive Placed : Path → ChangeTreeNode → Prop
  | mk {segments name path children files counts} : path = joinParts segments →
      (children.map ChangeTreeNode.name).Nodup →
      (∀ child ∈ children, PartName child.name) →
      (∀ child ∈ children, Tallied child) →
      (∀ child ∈ children, Placed (segments ++ [child.name]) child) →
      (∀ file ∈ files, PartName file.name) →
      (∀ file ∈ files, file.path = joinParts (segments ++ [file.name])) →
      Placed segments (.mk name path children files counts)

namespace Placed

variable {segments : Path} {node child : ChangeTreeNode} {file : ChangeFile}

theorem path_eq (h : Placed segments node) : node.path = joinParts segments := by
  rcases h with ⟨hpath, -, -, -, -, -, -⟩
  exact hpath

theorem names_nodup (h : Placed segments node) :
    (node.children.map ChangeTreeNode.name).Nodup := by
  rcases h with ⟨-, hnames, -, -, -, -, -⟩
  exact hnames

theorem child_name (h : Placed segments node) (hchild : child ∈ node.children) :
    PartName child.name := by
  rcases h with ⟨-, -, hparts, -, -, -, -⟩
  exact hparts child hchild

theorem child_tallied (h : Placed segments node) (hchild : child ∈ node.children) :
    Tallied child := by
  rcases h with ⟨-, -, -, htallied, -, -, -⟩
  exact htallied child hchild

theorem child_placed (h : Placed segments node) (hchild : child ∈ node.children) :
    Placed (segments ++ [child.name]) child := by
  rcases h with ⟨-, -, -, -, hplaced, -, -⟩
  exact hplaced child hchild

theorem file_name (h : Placed segments node) (hfile : file ∈ node.files) : PartName file.name := by
  rcases h with ⟨-, -, -, -, -, hnames, -⟩
  exact hnames file hfile

theorem file_path (h : Placed segments node) (hfile : file ∈ node.files) :
    file.path = joinParts (segments ++ [file.name]) := by
  rcases h with ⟨-, -, -, -, -, -, hpaths⟩
  exact hpaths file hfile

end Placed

/-! Inserting. -/

section Insert

variable {file : ChangeFile} {part path : String} {update : ChangeTreeNode → ChangeTreeNode}

theorem name_insertChange (parts : List String) (node : ChangeTreeNode) :
    (insertChange file parts node).name = node.name := by
  cases node
  cases parts <;> rfl

theorem counts_insertChange (parts : List String) (node : ChangeTreeNode) :
    (insertChange file parts node).counts = node.counts := by
  cases node
  cases parts <;> rfl

theorem mem_updateChild {children : List ChangeTreeNode} {child : ChangeTreeNode}
    (h : child ∈ updateChild part path update children) :
    child ∈ children ∨ child = update (createChangeTreeNode part path) ∨
      ∃ old ∈ children, old.name = part ∧ child = update old := by
  induction children with
  | nil =>
      rw [updateChild, List.mem_singleton] at h
      exact Or.inr (Or.inl h)
  | cons head rest ih =>
      rw [updateChild] at h
      split at h
      · next hname =>
          rcases List.mem_cons.mp h with rfl | hrest
          · exact Or.inr (Or.inr ⟨head, List.mem_cons_self, hname, rfl⟩)
          · exact Or.inl (List.mem_cons_of_mem head hrest)
      · rcases List.mem_cons.mp h with rfl | hrest
        · exact Or.inl List.mem_cons_self
        · rcases ih hrest with hold | hnew | ⟨old, hold, hname, hupdate⟩
          · exact Or.inl (List.mem_cons_of_mem head hold)
          · exact Or.inr (Or.inl hnew)
          · exact Or.inr (Or.inr ⟨old, List.mem_cons_of_mem head hold, hname, hupdate⟩)

theorem names_updateChild (hname : ∀ node, (update node).name = node.name)
    {children : List ChangeTreeNode} (hnodup : (children.map ChangeTreeNode.name).Nodup) :
    ((updateChild part path update children).map ChangeTreeNode.name).Nodup ∧
      ∀ other, other ∈ (updateChild part path update children).map ChangeTreeNode.name →
        other = part ∨ other ∈ children.map ChangeTreeNode.name := by
  induction children with
  | nil =>
      simp only [updateChild, List.map_cons, List.map_nil, hname]
      exact ⟨List.nodup_singleton _, fun other hother => Or.inl (List.mem_singleton.mp hother)⟩
  | cons head rest ih =>
      rw [List.map_cons, List.nodup_cons] at hnodup
      rw [updateChild]
      split
      · simp only [List.map_cons, hname, List.nodup_cons]
        exact ⟨hnodup, fun other hother => Or.inr hother⟩
      · next hne =>
          rcases ih hnodup.2 with ⟨hrest, hmem⟩
          simp only [List.map_cons, List.nodup_cons, List.mem_cons]
          refine ⟨⟨fun hin => ?_, hrest⟩, ?_⟩
          · rcases hmem _ hin with heq | hold
            · exact hne heq
            · exact hnodup.1 hold
          · rintro other (rfl | hother)
            · exact Or.inr (Or.inl rfl)
            · rcases hmem other hother with heq | hold
              · exact Or.inl heq
              · exact Or.inr (Or.inr hold)

theorem collectFiles_create (name path : String) :
    collectFiles (createChangeTreeNode name path) = [] := rfl

theorem collectFiles_updateChild
    (hupdate : ∀ node, (collectFiles (update node)).Perm (file :: collectFiles node))
    (children : List ChangeTreeNode) :
    ((updateChild part path update children).flatMap collectFiles).Perm
      (file :: children.flatMap collectFiles) := by
  induction children with
  | nil =>
      rw [updateChild, List.flatMap_singleton, List.flatMap_nil]
      exact hupdate _
  | cons head rest ih =>
      rw [updateChild]
      split
      · rw [List.flatMap_cons, List.flatMap_cons]
        exact (hupdate head).append_right _
      · rw [List.flatMap_cons, List.flatMap_cons]
        exact (ih.append_left _).trans List.perm_middle

theorem collectFiles_count (type : ChangeType) (node : ChangeTreeNode) :
    collectFiles (node.count type) = collectFiles node := by
  cases node
  rfl

theorem collectFiles_insertChange (parts : List String) (node : ChangeTreeNode) :
    (collectFiles (insertChange file parts node)).Perm (file :: collectFiles node) := by
  induction parts generalizing node with
  | nil =>
      cases node with
      | mk name path children files counts =>
          rw [insertChange, collectFiles, collectFiles, List.append_assoc]
          exact List.perm_middle
  | cons part parts ih =>
      cases node with
      | mk name path children files counts =>
          rw [insertChange, collectFiles, collectFiles, collectChildren_eq, collectChildren_eq]
          have hupdate : ∀ child : ChangeTreeNode,
              (collectFiles (insertChange file parts (child.count file.type))).Perm
                (file :: collectFiles child) := by
            intro child
            have h := ih (child.count file.type)
            rwa [collectFiles_count] at h
          exact ((collectFiles_updateChild hupdate children).append_left files).trans
            List.perm_middle

theorem childPath_joinParts {segments : Path} (hsegments : ∀ name ∈ segments, PartName name)
    (part : String) : childPath (joinParts segments) part = joinParts (segments ++ [part]) := by
  rcases segments with _ | ⟨first, rest⟩
  · rw [childPath, if_pos (by rfl), List.nil_append]
    exact (String.intercalate_singleton).symm
  · have hne : joinParts (first :: rest) ≠ "" := by
      intro heq
      have hsplit := splitOn_joinParts (fun name hname => (hsegments name hname).2)
        (List.cons_ne_nil first rest)
      rw [heq] at hsplit
      simp only [String.toList_empty, List.splitOn_nil, List.map_cons, List.map_nil,
        List.cons.injEq] at hsplit
      exact (hsegments first List.mem_cons_self).1 hsplit.1.symm
    rw [childPath, if_neg hne, joinParts_append (List.cons_ne_nil _ _) (List.cons_ne_nil _ _)]
    congr 1

theorem placed_create {segments : Path} {name : String} :
    Placed segments (createChangeTreeNode name (joinParts segments)) :=
  .mk rfl List.nodup_nil (by simp) (by simp) (by simp) (by simp) (by simp)

theorem placed_count {segments : Path} {node : ChangeTreeNode} (h : Placed segments node)
    (type : ChangeType) : Placed segments (node.count type) := by
  rcases h with ⟨hpath, hnames, hparts, htallied, hplaced, hfileNames, hfilePaths⟩
  exact .mk hpath hnames hparts htallied hplaced hfileNames hfilePaths

/-- A counted child with the new file has the right counts again. -/
theorem tallied_insertChange {node : ChangeTreeNode} (h : Tallied node) (parts : List String) :
    Tallied (insertChange file parts (node.count file.type)) := by
  intro type
  have hinsert : (collectFiles (insertChange file parts (node.count file.type))).Perm
      (file :: collectFiles (node.count file.type)) := collectFiles_insertChange parts _
  have hperm := hinsert.map ChangeFile.toChange
  rw [counts_insertChange, hperm.countP_eq, collectFiles_count, List.map_cons, List.countP_cons]
  have hcounts : (node.count file.type).counts = node.counts.bump file.type := by
    cases node
    rfl
  rw [hcounts, ChangeCounts.get_bump, h type]
  congr 1
  rw [ofType]
  by_cases htype : type = file.type
  · rw [if_pos htype, if_pos (beq_iff_eq.mpr htype.symm)]
  · rw [if_neg htype, if_neg fun heq => htype (beq_iff_eq.mp heq).symm]

/-- Inserting keeps everything in its place. -/
theorem placed_insertChange {parts : List String} {segments : Path} {node : ChangeTreeNode}
    (hsegments : ∀ name ∈ segments, PartName name) (hparts : ∀ name ∈ parts, PartName name)
    (hname : PartName file.name) (hpath : file.path = joinParts (segments ++ parts ++ [file.name]))
    (h : Placed segments node) : Placed segments (insertChange file parts node) := by
  induction parts generalizing segments node with
  | nil =>
      rcases h with ⟨hnode, hnames, hchildNames, htallied, hplaced, hfileNames, hfilePaths⟩
      rw [List.append_nil] at hpath
      refine .mk hnode hnames hchildNames htallied hplaced ?_ ?_
      · intro other hother
        rcases List.mem_append.mp hother with hold | hnew
        · exact hfileNames other hold
        · exact List.mem_singleton.mp hnew ▸ hname
      · intro other hother
        rcases List.mem_append.mp hother with hold | hnew
        · exact hfilePaths other hold
        · exact List.mem_singleton.mp hnew ▸ hpath
  | cons part parts ih =>
      rcases h with ⟨hnode, hnames, hchildNames, htallied, hplaced, hfileNames, hfilePaths⟩
      have hpart := hparts part List.mem_cons_self
      have hdeeper : ∀ name ∈ segments ++ [part], PartName name := by
        intro name hin
        rcases List.mem_append.mp hin with hold | hnew
        · exact hsegments name hold
        · exact List.mem_singleton.mp hnew ▸ hpart
      have hupdate : ∀ child, Placed (segments ++ [part]) child →
          Placed (segments ++ [part]) (insertChange file parts (child.count file.type)) := by
        intro child hchild
        apply ih hdeeper (fun name hin => hparts name (List.mem_cons_of_mem part hin)) ?_
          (placed_count hchild file.type)
        rw [hpath]
        simp
      have hupdateName : ∀ child : ChangeTreeNode,
          (insertChange file parts (child.count file.type)).name = child.name := by
        intro child
        rw [name_insertChange]
        cases child
        rfl
      rw [insertChange]
      refine .mk hnode (names_updateChild hupdateName hnames).1 ?_ ?_ ?_ hfileNames hfilePaths
      · intro child hchild
        rcases mem_updateChild hchild with hold | rfl | ⟨old, hold, -, rfl⟩
        · exact hchildNames child hold
        · rw [hupdateName]
          exact hpart
        · rw [hupdateName]
          exact hchildNames old hold
      · intro child hchild
        rcases mem_updateChild hchild with hold | rfl | ⟨old, hold, -, rfl⟩
        · exact htallied child hold
        · apply tallied_insertChange
          intro type
          rw [collectFiles_create]
          exact ChangeCounts.get_zero type
        · exact tallied_insertChange (htallied old hold) parts
      · intro child hchild
        rcases mem_updateChild hchild with hold | rfl | ⟨old, hold, hname, rfl⟩
        · exact hplaced child hold
        · rw [hupdateName, hnode, childPath_joinParts hsegments]
          exact hupdate _ placed_create
        · rw [hupdateName, hname]
          exact hupdate old (hname ▸ hplaced old hold)

end Insert

/-! Building. -/

/-- Parts between slashes, none of them empty, and no backslash. -/
def IsSlashPath (path : String) : Prop :=
  '\\' ∉ path.toList ∧ ∀ part ∈ path.toList.splitOn '/', part ≠ []

instance (path : String) : Decidable (IsSlashPath path) :=
  inferInstanceAs (Decidable (_ ∧ _))

theorem changeParts_eq {path : String} (h : IsSlashPath path) :
    changeParts path = (path.toList.splitOn '/').map String.ofList := by
  have hsplit : ∀ chars : List Char, '\\' ∉ chars →
      (chars.splitOnP fun character => character == '\\' || character == '/') =
        chars.splitOn '/' := by
    intro chars
    induction chars with
    | nil => exact fun _ => rfl
    | cons head rest ih =>
        intro hchars
        rw [List.mem_cons, not_or] at hchars
        have hhead : (head == '\\') = false := beq_false_of_ne (Ne.symm hchars.1)
        rw [List.splitOn, List.splitOnP_cons_eq_if_modifyHead,
          List.splitOnP_cons_eq_if_modifyHead, ih hchars.2, List.splitOn, hhead, Bool.false_or]
  rw [changeParts, hsplit _ h.1, List.filter_eq_self.mpr]
  intro part hpart
  simpa using h.2 part hpart

theorem changeParts_spec {path : String} (h : IsSlashPath path) :
    changeParts path ≠ [] ∧ (∀ part ∈ changeParts path, PartName part) ∧
      joinParts (changeParts path) = path := by
  rw [changeParts_eq h]
  refine ⟨?_, ?_, ?_⟩
  · rw [Ne, List.map_eq_nil_iff]
    exact List.splitOn_ne_nil '/' path.toList
  · intro part hpart
    rcases List.mem_map.mp hpart with ⟨chars, hchars, rfl⟩
    constructor
    · intro hempty
      apply h.2 chars hchars
      rw [← String.toList_ofList (l := chars), hempty]
      rfl
    · rw [PlainName, String.toList_ofList]
      exact not_mem_of_mem_splitOn hchars
  · apply String.toList_injective
    have hmap : (path.toList.splitOn '/').map (String.toList ∘ String.ofList) =
        path.toList.splitOn '/' := List.map_id'' (fun _ => String.toList_ofList) _
    rw [joinParts, String.toList_intercalate, List.map_map, hmap]
    exact List.intercalate_splitOn '/'

/-- One change more. -/
theorem addChange_spec {root : ChangeTreeNode} {change : Change} (hroot : Placed [] root)
    (hpath : IsSlashPath change.path) :
    Placed [] (addChange root change) ∧
      ((collectFiles (addChange root change)).map ChangeFile.toChange).Perm
        (change :: (collectFiles root).map ChangeFile.toChange) := by
  rcases changeParts_spec hpath with ⟨hne, hparts, hjoin⟩
  have hlast : (changeParts change.path).getLast? =
      some ((changeParts change.path).getLast hne) := List.getLast?_eq_some_getLast hne
  have hsplit := List.dropLast_append_getLast hne
  rw [addChange, hlast]
  constructor
  · apply placed_insertChange (by simp)
    · exact fun name hname => hparts name (List.mem_of_mem_dropLast hname)
    · exact hparts _ (List.getLast_mem hne)
    · rw [List.nil_append, hsplit, hjoin]
    · exact hroot
  · exact (collectFiles_insertChange _ _).map ChangeFile.toChange

/-- The tree of the changes holds them in their places. -/
theorem buildChangeTreeModel_spec {changes : List Change}
    (hpaths : ∀ change ∈ changes, IsSlashPath change.path) :
    Placed [] (buildChangeTreeModel changes) ∧
      ((collectFiles (buildChangeTreeModel changes)).map ChangeFile.toChange).Perm changes := by
  suffices hall : ∀ (rest : List Change) (root : ChangeTreeNode) (passed : List Change),
      (∀ change ∈ rest, IsSlashPath change.path) → Placed [] root →
      ((collectFiles root).map ChangeFile.toChange).Perm passed →
      Placed [] (rest.foldl addChange root) ∧
        ((collectFiles (rest.foldl addChange root)).map ChangeFile.toChange).Perm
          (passed ++ rest) from
    hall changes _ [] hpaths placed_create (List.Perm.refl [])
  intro rest
  induction rest with
  | nil =>
      intro root passed _ hroot hperm
      rw [List.append_nil]
      exact ⟨hroot, hperm⟩
  | cons change rest ih =>
      intro root passed hrest hroot hperm
      rcases addChange_spec hroot (hrest change List.mem_cons_self) with ⟨hplaced, hadded⟩
      have hnext : ((collectFiles (addChange root change)).map ChangeFile.toChange).Perm
          (passed ++ [change]) :=
        (hadded.trans (hperm.cons change)).trans (List.perm_append_singleton change passed).symm
      have hfinal := ih (addChange root change) (passed ++ [change])
        (fun other hother => hrest other (List.mem_cons_of_mem change hother)) hplaced hnext
      rwa [List.append_assoc, List.singleton_append] at hfinal

/-! What is beneath a folder. -/

/-- The path goes on after the folder's path and a slash. -/
def beneath (folder path : String) : Bool :=
  (folder.toList ++ ['/']).isPrefixOf path.toList

theorem beneath_iff {segments parts : Path} (hsegments : ∀ name ∈ segments, PartName name)
    (hparts : ∀ name ∈ parts, PartName name) (hfolder : segments ≠ []) (hpath : parts ≠ []) :
    beneath (joinParts segments) (joinParts parts) = true ↔
      ∃ rest, rest ≠ [] ∧ parts = segments ++ rest := by
  rw [beneath, List.isPrefixOf_iff_prefix]
  exact prefix_joinParts_iff hfolder hpath (fun name hname => (hsegments name hname).2)
    fun name hname => (hparts name hname).2

theorem joinParts_injective {left right : Path} (hleft : ∀ name ∈ left, PartName name)
    (hright : ∀ name ∈ right, PartName name) (hleftNe : left ≠ []) (hrightNe : right ≠ [])
    (h : joinParts left = joinParts right) : left = right := by
  rw [← splitOn_joinParts (fun name hname => (hleft name hname).2) hleftNe, h,
    splitOn_joinParts (fun name hname => (hright name hname).2) hrightNe]

section Beneath

variable {segments : Path} {node folder : ChangeTreeNode}

theorem forall_append_partName {name : String} (hsegments : ∀ name ∈ segments, PartName name)
    (hname : PartName name) : ∀ other ∈ segments ++ [name], PartName other := by
  intro other hother
  rcases List.mem_append.mp hother with hold | hnew
  · exact hsegments other hold
  · exact List.mem_singleton.mp hnew ▸ hname

/-- Files are at paths below their node. -/
theorem path_of_mem_collectFiles {file : ChangeFile}
    (hsegments : ∀ name ∈ segments, PartName name) (h : Placed segments node)
    (hfile : file ∈ collectFiles node) :
    ∃ rest, rest ≠ [] ∧ (∀ name ∈ rest, PartName name) ∧
      file.path = joinParts (segments ++ rest) := by
  induction node using ChangeTreeNode.childInduction generalizing segments with
  | step node ih =>
      rw [collectFiles_eq, List.mem_append, List.mem_flatMap] at hfile
      rcases hfile with hown | ⟨child, hchild, hin⟩
      · refine ⟨[file.name], List.cons_ne_nil _ _, ?_, h.file_path hown⟩
        intro name hname
        exact List.mem_singleton.mp hname ▸ h.file_name hown
      · have hname := h.child_name hchild
        rcases ih child hchild (forall_append_partName hsegments hname) (h.child_placed hchild) hin
          with ⟨rest, -, hrest, hpath⟩
        refine ⟨child.name :: rest, List.cons_ne_nil _ _, ?_, by rw [hpath]; simp⟩
        intro name hin
        rcases List.mem_cons.mp hin with rfl | hin
        · exact hname
        · exact hrest name hin

theorem placed_of_folder (hsegments : ∀ name ∈ segments, PartName name)
    (h : Placed segments node) (hfolder : Folder node folder) :
    ∃ rest, rest ≠ [] ∧ (∀ name ∈ segments ++ rest, PartName name) ∧
      Placed (segments ++ rest) folder ∧ Tallied folder := by
  induction hfolder with
  | @child folder hchild =>
      exact ⟨[folder.name], List.cons_ne_nil _ _,
        forall_append_partName hsegments (h.child_name hchild), h.child_placed hchild,
        h.child_tallied hchild⟩
  | @deeper parent folder _ hchild ih =>
      rcases ih with ⟨rest, -, hrest, hplaced, -⟩
      refine ⟨rest ++ [folder.name], by simp, ?_, ?_, hplaced.child_tallied hchild⟩
      · rw [← List.append_assoc]
        exact forall_append_partName hrest (hplaced.child_name hchild)
      · rw [← List.append_assoc]
        exact hplaced.child_placed hchild

theorem flatMap_eq_of_unique {α β : Type} {key : α → String} {values : List α} {f : α → List β}
    {only : α} (hnodup : (values.map key).Nodup) (honly : only ∈ values)
    (hothers : ∀ value ∈ values, key value ≠ key only → f value = []) :
    values.flatMap f = f only := by
  induction values with
  | nil => exact absurd honly List.not_mem_nil
  | cons head rest ih =>
      rw [List.map_cons, List.nodup_cons] at hnodup
      have hrest : ∀ value ∈ rest, key value ≠ key only → f value = [] :=
        fun value hvalue => hothers value (List.mem_cons_of_mem head hvalue)
      rw [List.flatMap_cons]
      rcases List.mem_cons.mp honly with rfl | hin
      · have hnone : rest.flatMap f = [] := by
          rw [List.flatMap_eq_nil_iff]
          intro value hvalue
          apply hrest value hvalue
          exact fun heq => hnodup.1 (heq ▸ List.mem_map_of_mem hvalue)
        rw [hnone, List.append_nil]
      · rw [hothers head List.mem_cons_self fun heq => hnodup.1 (heq ▸ List.mem_map_of_mem hin),
          List.nil_append, ih hnodup.2 hin hrest]

/-- What is beneath a child is what the child holds. -/
theorem filter_beneath_child {child : ChangeTreeNode}
    (hsegments : ∀ name ∈ segments, PartName name) (h : Placed segments node)
    (hchild : child ∈ node.children) :
    (collectFiles node).filter (fun file => beneath child.path file.path) =
      collectFiles child := by
  have hplaced := h.child_placed hchild
  have hname := h.child_name hchild
  have hdeeper := forall_append_partName hsegments hname
  have hbeneath : ∀ {parts : Path}, parts ≠ [] → (∀ name ∈ parts, PartName name) →
      (beneath child.path (joinParts parts) = true ↔
        ∃ rest, rest ≠ [] ∧ parts = (segments ++ [child.name]) ++ rest) := by
    intro parts hne hparts
    rw [hplaced.path_eq]
    exact beneath_iff hdeeper hparts (by simp) hne
  rw [collectFiles_eq node, List.filter_append, List.filter_flatMap]
  have hown : node.files.filter (fun file => beneath child.path file.path) = [] := by
    rw [List.filter_eq_nil_iff]
    intro file hfile htrue
    rw [h.file_path hfile, hbeneath (by simp)
      (forall_append_partName hsegments (h.file_name hfile))] at htrue
    rcases htrue with ⟨rest, hrest, heq⟩
    have hlength := congrArg List.length heq
    have hpositive := List.length_pos_of_ne_nil hrest
    simp only [List.length_append, List.length_singleton] at hlength
    omega
  rw [hown, List.nil_append, flatMap_eq_of_unique h.names_nodup hchild]
  · rw [List.filter_eq_self]
    intro file hfile
    rcases path_of_mem_collectFiles hdeeper hplaced hfile with ⟨rest, hrest, hnames, hpath⟩
    rw [hpath, hbeneath (by simp)]
    · exact ⟨rest, hrest, rfl⟩
    · intro name hin
      rcases List.mem_append.mp hin with hold | hnew
      · exact hdeeper name hold
      · exact hnames name hnew
  · intro other hother hne
    rw [List.filter_eq_nil_iff]
    intro file hfile htrue
    have hotherDeeper := forall_append_partName hsegments (h.child_name hother)
    rcases path_of_mem_collectFiles hotherDeeper (h.child_placed hother) hfile with
      ⟨rest, -, hnames, hpath⟩
    rw [hpath, hbeneath (by simp)] at htrue
    · rcases htrue with ⟨more, -, heq⟩
      rw [List.append_assoc, List.append_assoc, List.append_cancel_left_eq, List.singleton_append,
        List.singleton_append, List.cons.injEq] at heq
      exact hne heq.1
    · intro name hin
      rcases List.mem_append.mp hin with hold | hnew
      · exact hotherDeeper name hold
      · exact hnames name hnew

/-- What is beneath a folder is what the folder holds. -/
theorem filter_beneath_folder (hsegments : ∀ name ∈ segments, PartName name)
    (h : Placed segments node) (hfolder : Folder node folder) :
    (collectFiles node).filter (fun file => beneath folder.path file.path) =
      collectFiles folder := by
  induction hfolder with
  | child hchild => exact filter_beneath_child hsegments h hchild
  | @deeper parent folder hparent hchild ih =>
      rcases placed_of_folder hsegments h hparent with ⟨rest, hrest, hnames, hplaced, -⟩
      rw [← filter_beneath_child hnames hplaced hchild, ← ih, List.filter_filter]
      apply List.filter_congr
      intro file hfile
      -- what is beneath the child is beneath its parent
      have himplies : beneath folder.path file.path = true →
          beneath parent.path file.path = true := by
        rcases path_of_mem_collectFiles hsegments h hfile with ⟨own, hown, hownNames, hpath⟩
        have hparts : ∀ name ∈ segments ++ own, PartName name := by
          intro name hin
          rcases List.mem_append.mp hin with hold | hnew
          · exact hsegments name hold
          · exact hownNames name hnew
        rw [(hplaced.child_placed hchild).path_eq, hplaced.path_eq, hpath,
          beneath_iff (forall_append_partName hnames (hplaced.child_name hchild)) hparts
            (by simp) (by simp [hown]),
          beneath_iff hnames hparts (by simp [hrest]) (by simp [hown])]
        rintro ⟨more, -, heq⟩
        exact ⟨folder.name :: more, List.cons_ne_nil _ _, by rw [heq]; simp⟩
      rcases hfolder : beneath folder.path file.path with _ | _
      · rfl
      · rw [himplies hfolder]
        rfl

end Beneath

end CheckPo
