/-
The tree in which the frontend shows changes, grouped by the folders of their paths.
-/
import CheckPo.ProjectPaths

namespace CheckPo

inductive ChangeType where
  | added
  | modified
  | deleted
deriving DecidableEq

structure Change where
  path : String
  type : ChangeType
deriving DecidableEq

/-- A change with the last part of its path. -/
structure ChangeFile extends Change where
  name : String
deriving DecidableEq

structure ChangeCounts where
  added : Nat
  modified : Nat
  deleted : Nat
deriving DecidableEq

namespace ChangeCounts

def get (counts : ChangeCounts) : ChangeType → Nat
  | .added => counts.added
  | .modified => counts.modified
  | .deleted => counts.deleted

/-- `counts[type] += 1`. -/
def bump (counts : ChangeCounts) : ChangeType → ChangeCounts
  | .added => { counts with added := counts.added + 1 }
  | .modified => { counts with modified := counts.modified + 1 }
  | .deleted => { counts with deleted := counts.deleted + 1 }

def zero : ChangeCounts := ⟨0, 0, 0⟩

@[simp] theorem get_zero (type : ChangeType) : zero.get type = 0 := by
  cases type <;> rfl

@[simp] theorem get_bump (counts : ChangeCounts) (type other : ChangeType) :
    (counts.bump type).get other = counts.get other + if other = type then 1 else 0 := by
  cases type <;> cases other <;> rfl

end ChangeCounts

/-- The children are in the order in which they came; each is found under its name. -/
inductive ChangeTreeNode where
  | mk (name path : String) (children : List ChangeTreeNode) (files : List ChangeFile)
      (counts : ChangeCounts)

namespace ChangeTreeNode

def name : ChangeTreeNode → String
  | mk name _ _ _ _ => name

def path : ChangeTreeNode → String
  | mk _ path _ _ _ => path

def children : ChangeTreeNode → List ChangeTreeNode
  | mk _ _ children _ _ => children

def files : ChangeTreeNode → List ChangeFile
  | mk _ _ _ files _ => files

def counts : ChangeTreeNode → ChangeCounts
  | mk _ _ _ _ counts => counts

theorem sizeOf_child_lt {node child : ChangeTreeNode} (h : child ∈ node.children) :
    sizeOf child < sizeOf node := by
  cases node with
  | mk name path children files counts =>
      have hlist : sizeOf child < sizeOf children := List.sizeOf_lt_of_mem h
      simp only [mk.sizeOf_spec]
      omega

/-- What passes from the children of a node to the node holds of all nodes. -/
theorem childInduction {motive : ChangeTreeNode → Prop}
    (step : ∀ node, (∀ child ∈ node.children, motive child) → motive node)
    (node : ChangeTreeNode) : motive node :=
  step node fun child _ => childInduction step child
termination_by sizeOf node
decreasing_by exact sizeOf_child_lt ‹_›

def count (type : ChangeType) : ChangeTreeNode → ChangeTreeNode
  | mk name path children files counts => mk name path children files (counts.bump type)

end ChangeTreeNode

/-! Building. -/

/-- `createChangeTreeNode`. -/
def createChangeTreeNode (name path : String) : ChangeTreeNode :=
  .mk name path [] [] .zero

/-- `node.path ? … : part`. -/
def childPath (path part : String) : String :=
  if path = "" then part else path ++ "/" ++ part

/-- The child under a name, created at the end where there is none, is replaced. -/
def updateChild (part path : String) (update : ChangeTreeNode → ChangeTreeNode) :
    List ChangeTreeNode → List ChangeTreeNode
  | [] => [update (createChangeTreeNode part path)]
  | child :: rest =>
      if child.name = part then update child :: rest
      else child :: updateChild part path update rest

/-- The loop over the parts of a path, down from a node. -/
def insertChange (file : ChangeFile) : List String → ChangeTreeNode → ChangeTreeNode
  | [], .mk name path children files counts =>
      .mk name path children (files ++ [file]) counts
  | part :: parts, .mk name path children files counts =>
      .mk name path (updateChild part (childPath path part)
        (fun child => insertChange file parts (child.count file.type)) children) files counts

/-- `path.split(/[\\/]/).filter(Boolean)`. -/
def changeParts (path : String) : List String :=
  ((path.toList.splitOnP fun character => character == '\\' || character == '/').filter
    fun part => part ≠ []).map String.ofList

def addChange (root : ChangeTreeNode) (change : Change) : ChangeTreeNode :=
  let parts := changeParts change.path
  let fileName := match parts.getLast? with
    | some name => name
    | none => change.path
  insertChange ⟨change, fileName⟩ parts.dropLast root

def buildChangeTreeModel (changes : List Change) : ChangeTreeNode :=
  changes.foldl addChange (createChangeTreeNode "" "")

/-! Walking. -/

/-- `compressedChangeFolder`: down a chain of folders with one child and no file. -/
def compressedChangeFolder : ChangeTreeNode → ChangeTreeNode × List String
  | .mk name _ [child] [] _ =>
      let (node, names) := compressedChangeFolder child
      (node, name :: names)
  | node => (node, [node.name])

mutual

/-- `collectChangeTreeFilePaths`. -/
def collectChangeTreeFilePaths : ChangeTreeNode → List String
  | .mk _ _ children files _ => files.map (fun file => file.path) ++ collectChildrenFilePaths children

def collectChildrenFilePaths : List ChangeTreeNode → List String
  | [] => []
  | child :: rest => collectChangeTreeFilePaths child ++ collectChildrenFilePaths rest

end

theorem sizeOf_compressed_le (node : ChangeTreeNode) :
    sizeOf (compressedChangeFolder node).1 ≤ sizeOf node := by
  induction node using ChangeTreeNode.childInduction with
  | step node ih =>
      rw [compressedChangeFolder.eq_def]
      split
      · next name path child counts =>
          have hchild := ih child List.mem_cons_self
          simp only [ChangeTreeNode.mk.sizeOf_spec, List.cons.sizeOf_spec]
          omega
      · exact le_refl _

/-- `collectChangeTreeFolderPaths`. -/
def collectChangeTreeFolderPaths (root : ChangeTreeNode) : List String :=
  root.children.attach.flatMap fun child =>
    (compressedChangeFolder child.1).1.path ::
      collectChangeTreeFolderPaths (compressedChangeFolder child.1).1
termination_by sizeOf root
decreasing_by
  exact (sizeOf_compressed_le child.1).trans_lt (ChangeTreeNode.sizeOf_child_lt child.2)

/-! Rows. -/

inductive ChangeTreeItem where
  | folder (node : ChangeTreeNode) (names : List String) (isOpen : Bool)
  | file (change : ChangeFile)

structure ChangeTreeRow where
  key : String
  parentKey : Option String
  depth : Nat
  posInSet : Nat
  setSize : Nat
  item : ChangeTreeItem

section Rows

variable (localeCompare : String → String → Ordering)

def changeTypeOrder : ChangeType → Nat
  | .added => 0
  | .modified => 1
  | .deleted => 2

def sortFolders (folders : List ChangeTreeNode) : List ChangeTreeNode :=
  folders.mergeSort fun left right => localeCompare left.name right.name != .gt

/-- By `compareChangeTreeFile`. -/
def sortFiles (files : List ChangeFile) : List ChangeFile :=
  files.mergeSort fun left right =>
    if left.type ≠ right.type then
      decide (changeTypeOrder left.type ≤ changeTypeOrder right.type)
    else localeCompare left.name right.name != .gt

def folderKey (node : ChangeTreeNode) : String := "folder:" ++ node.path

def fileKey (file : ChangeFile) : String := "file:" ++ file.path

variable (openPaths : Finset String)

/-- The rows below a node. -/
def appendChildren (parent : ChangeTreeNode) (depth : Nat) (parentKey : Option String) :
    List ChangeTreeRow :=
  let folders := sortFolders localeCompare parent.children
  let files := sortFiles localeCompare parent.files
  let setSize := folders.length + files.length
  (folders.attach.zipIdx.flatMap fun entry =>
    let folder := compressedChangeFolder entry.1.1
    let isOpen := decide (folder.1.path ∈ openPaths)
    { key := folderKey folder.1
      parentKey := parentKey
      depth := depth
      posInSet := entry.2 + 1
      setSize := setSize
      item := .folder folder.1 folder.2 isOpen } ::
    if isOpen = true then appendChildren folder.1 (depth + 1) (some (folderKey folder.1)) else []) ++
  files.zipIdx.map fun entry =>
    { key := fileKey entry.1
      parentKey := parentKey
      depth := depth
      posInSet := folders.length + entry.2 + 1
      setSize := setSize
      item := .file entry.1 }
termination_by sizeOf parent
decreasing_by
  have hchild : entry.1.1 ∈ parent.children := List.mem_mergeSort.mp entry.1.2
  exact (sizeOf_compressed_le entry.1.1).trans_lt (ChangeTreeNode.sizeOf_child_lt hchild)

def flattenChangeTreeRows (root : ChangeTreeNode) : List ChangeTreeRow :=
  appendChildren localeCompare openPaths root 0 none

end Rows

end CheckPo
