/-
The working tree of a Unity project: what stands at a path, what the operating system
says of it, and the state of a tracked file.
-/
import CheckPo.ProjectPaths
import CheckPo.SnapshotStore

namespace CheckPo

/-- The kinds of a failed lookup that the program tells apart. -/
inductive LookupError where
  | notFound
  | notADirectory
  | other (message : String)
deriving DecidableEq

/-- `io_error`. -/
def ioError (root : String) (path : Path) : LookupError → CheckPoError
  | .notFound => .notFound (displayPath root path)
  | .notADirectory => .io (displayPath root path) "Not a directory"
  | .other message => .io (displayPath root path) message

structure ProjectFile where
  content : Bytes
  modified : Timestamp
deriving DecidableEq

/-- Everything below the project root.  The names that a directory lists are spelled as
they were created; a lookup finds what the file system takes for the same name, and
whatever it finds stands in a directory. -/
structure WorkingTree where
  /-- The display path of the project. -/
  root : String
  files : FileTree ProjectFile
  lookup : Path → Option (TreeEntry ProjectFile)
  /-- What the system finds at a path that leads through a symbolic link. -/
  beyondLink : Path → Except LookupError (TreeEntry ProjectFile)
  rooted : lookup [] = some .directory
  parents : ∀ path name, lookup (path ++ [name]) ≠ none → lookup path = some .directory
  listed : ∀ path, files.entry path ≠ none → lookup path = files.entry path
  plain : ∀ path, files.entry path ≠ none → ∀ name ∈ path, PlainName name

/-- Only the same names are taken for the same name. -/
def WorkingTree.ExactNames (tree : WorkingTree) : Prop := tree.lookup = tree.files.entry

namespace WorkingTree

/-- A tree in which only the same names are taken for the same name. -/
def exact (root : String) (files : FileTree ProjectFile) (hroot : files.entry [] = some .directory)
    (habove : ∀ path ∈ files.paths, path ≠ [] → files.entry path.dropLast = some .directory)
    (hplain : ∀ path ∈ files.paths, ∀ name ∈ path, PlainName name) : WorkingTree where
  root := root
  files := files
  lookup := files.entry
  beyondLink _ := .error .notFound
  rooted := hroot
  parents path name h := by
    have hparent := habove (path ++ [name]) ((files.mem_paths _).mpr h) (by simp)
    rwa [List.dropLast_concat] at hparent
  listed _ _ := rfl
  plain path h := hplain path ((files.mem_paths path).mpr h)

variable (tree : WorkingTree)

/-- The walk of a lookup from one component to the next. -/
def resolveFrom (throughLink : Path → Except LookupError (TreeEntry ProjectFile)) (done : Path) :
    Path → Except LookupError (TreeEntry ProjectFile)
  | [] => orError (tree.lookup done) .notFound
  | name :: rest => match tree.lookup done with
    | none => .error .notFound
    | some .directory => resolveFrom throughLink (done ++ [name]) rest
    | some .link => throughLink (done ++ name :: rest)
    | some _ => .error .notADirectory

/-- `fs::symlink_metadata`, which follows links on the way but not the last one. -/
def symlinkMetadata (path : Path) : Except LookupError (TreeEntry ProjectFile) :=
  tree.resolveFrom tree.beyondLink [] path

/-- `AnchoredRoot::open_file`, which follows no link. -/
def openFile (path : Path) : CheckPoResult ProjectFile :=
  match tree.resolveFrom (fun _ => .error .notADirectory) [] path with
  | .ok (.file file) => .ok file
  | .ok .link => .error (.corruption
      s!"anchored path is not a no-follow regular file: {displayPath tree.root path}")
  | .ok _ => .error (.corruption
      s!"anchored path is not a regular file: {displayPath tree.root path}")
  | .error error => .error (ioError tree.root path error)

/-! Reading the tree. -/

variable {tree}

/-- What is above an entry is a directory. -/
theorem directory_above {base rest : Path} (hrest : rest ≠ [])
    (h : tree.lookup (base ++ rest) ≠ none) : tree.lookup base = some .directory := by
  induction rest using List.reverseRecOn with
  | nil => exact absurd rfl hrest
  | append_singleton front last ih =>
      rw [← List.append_assoc] at h
      have hparent := tree.parents _ _ h
      rcases front.eq_nil_or_concat with rfl | ⟨start, name, rfl⟩
      · simpa using hparent
      · exact ih (by simp) (by rw [hparent]; exact nofun)

theorem not_below_of_ne_directory {base rest : Path} (hrest : rest ≠ [])
    (h : tree.lookup base ≠ some .directory) : tree.lookup (base ++ rest) = none := by
  by_contra hentry
  exact h (directory_above hrest hentry)

section Resolve

variable {throughLink : Path → Except LookupError (TreeEntry ProjectFile)}

/-- A walk passes directories. -/
theorem resolveFrom_append :
    ∀ {base : Path} (middle rest : Path), tree.lookup base = some .directory →
      tree.lookup (base ++ middle) = some .directory →
      tree.resolveFrom throughLink base (middle ++ rest) =
        tree.resolveFrom throughLink (base ++ middle) rest
  | base, [], rest, _, _ => by rw [List.nil_append, List.append_nil]
  | base, name :: middle, rest, hbase, h => by
      have hnext : base ++ name :: middle = (base ++ [name]) ++ middle := by simp
      have hname : tree.lookup (base ++ [name]) = some .directory := by
        rcases middle with _ | ⟨second, others⟩
        · exact h
        · rw [hnext] at h
          exact directory_above (List.cons_ne_nil _ _) (by rw [h]; exact nofun)
      rw [List.cons_append, resolveFrom, hbase]
      simp only
      rw [hnext] at h ⊢
      exact resolveFrom_append middle rest hname h

theorem resolveFrom_root {middle rest : Path} (h : tree.lookup middle = some .directory) :
    tree.resolveFrom throughLink [] (middle ++ rest) = tree.resolveFrom throughLink middle rest :=
  resolveFrom_append middle rest tree.rooted h

variable {base : Path}

theorem resolveFrom_entry {path : Path} {entry : TreeEntry ProjectFile}
    (h : tree.lookup path = some entry) :
    tree.resolveFrom throughLink [] path = .ok entry := by
  rcases path.eq_nil_or_concat with rfl | ⟨front, name, rfl⟩
  · rw [resolveFrom, h, orError]
  · rw [List.concat_eq_append] at h ⊢
    have hfront : tree.lookup front = some .directory :=
      tree.parents front name (by rw [h]; exact Option.some_ne_none _)
    rw [resolveFrom_root hfront, resolveFrom, hfront]
    simp only [resolveFrom, h, orError]

/-- Nothing stands below a name that a directory does not have. -/
theorem resolveFrom_missing {name : String} {rest : Path}
    (hbase : tree.lookup base = some .directory)
    (hname : tree.lookup (base ++ [name]) = none) :
    tree.resolveFrom throughLink [] (base ++ name :: rest) = .error .notFound := by
  rw [resolveFrom_root hbase, resolveFrom, hbase]
  cases rest <;> simp only [resolveFrom, hname, orError]

theorem resolveFrom_belowFile {rest : Path} {file : ProjectFile} (hrest : rest ≠ [])
    (h : tree.lookup base = some (.file file)) :
    tree.resolveFrom throughLink [] (base ++ rest) = .error .notADirectory := by
  rcases base.eq_nil_or_concat with rfl | ⟨front, name, rfl⟩
  · rw [tree.rooted] at h
    cases h
  · rw [List.concat_eq_append] at h ⊢
    have hfront : tree.lookup front = some .directory :=
      tree.parents front name (by rw [h]; exact nofun)
    rcases rest with _ | ⟨next, others⟩
    · exact absurd rfl hrest
    · rw [List.append_assoc, resolveFrom_root hfront, List.singleton_append, resolveFrom, hfront]
      simp only [resolveFrom, h]

end Resolve

theorem symlinkMetadata_entry {path : Path} {entry : TreeEntry ProjectFile}
    (h : tree.lookup path = some entry) : tree.symlinkMetadata path = .ok entry :=
  resolveFrom_entry h

theorem symlinkMetadata_name {base : Path} {name : String}
    (h : tree.lookup base = some .directory) :
    tree.symlinkMetadata (base ++ [name]) = orError (tree.lookup (base ++ [name])) .notFound := by
  rw [symlinkMetadata, resolveFrom_root h, resolveFrom, h]
  rfl

theorem openFile_entry {path : Path} {file : ProjectFile}
    (h : tree.lookup path = some (.file file)) : tree.openFile path = .ok file := by
  rw [openFile, resolveFrom_entry h]

end WorkingTree

/-! Tracked files. -/

structure CurrentFileState where
  hash : ObjectId
  sizeBytes : Nat
  modifiedAtUtc : String
deriving DecidableEq

inductive CurrentPathKind where
  | missing
  | file
  | directory
  | blockedByFile (blocker : TrackedUnityFilePath)
deriving DecidableEq

namespace WorkingTree

section Tracked

variable (canonicalUtc : Timestamp → String) (blake3 : Bytes → Digest32) (tree : WorkingTree)

def fileState (file : ProjectFile) : CurrentFileState :=
  ⟨blake3 file.content, file.content.length, canonicalUtc file.modified⟩

def currentFileStateFromAnchor (path : TrackedUnityFilePath) : CheckPoResult CurrentFileState := do
  return fileState canonicalUtc blake3 (← tree.openFile path.segments)

/-- The loop of `ensure_project_parent_is_safe`. -/
def ensureParentFrom (path : TrackedUnityFilePath) (done : Path) : Path → CheckPoResult Unit
  | name :: leaf :: rest => match tree.symlinkMetadata (done ++ [name]) with
    | .error .notFound => .ok ()
    | .error error => .error (ioError tree.root (done ++ [name]) error)
    | .ok .directory => ensureParentFrom path (done ++ [name]) (leaf :: rest)
    | .ok _ => .error (.invalidTrackedPath
        s!"{path.text} contains unsafe parent component: {displayPath tree.root (done ++ [name])}")
  | _ => .ok ()

def ensureProjectParentIsSafe (path : TrackedUnityFilePath) : CheckPoResult Unit :=
  tree.ensureParentFrom path [] path.segments

def currentFileState (path : TrackedUnityFilePath) :
    CheckPoResult (Option CurrentFileState) := do
  tree.ensureProjectParentIsSafe path
  match tree.symlinkMetadata path.segments with
  | .error .notFound => return none
  | .error error => .error (ioError tree.root path.segments error)
  | .ok (.file _) => return some (← tree.currentFileStateFromAnchor canonicalUtc blake3 path)
  | .ok _ => .error (.invalidTrackedPath path.text)

/-- The loop of `current_path_kind`. -/
def currentPathKindFrom (path : TrackedUnityFilePath) (done : Path) :
    Path → CheckPoResult CurrentPathKind
  | name :: leaf :: rest => match tree.symlinkMetadata (done ++ [name]) with
    | .error .notFound => .ok .missing
    | .error error => .error (ioError tree.root (done ++ [name]) error)
    | .ok .link => .error (.invalidTrackedPath
        s!"{path.text} contains a symbolic link or reparse point parent: {displayPath tree.root (done ++ [name])}")
    | .ok (.file _) => do
        return .blockedByFile (← TrackedUnityFilePath.parse (joinParts (done ++ [name])))
    | .ok .special => .error (.invalidTrackedPath
        s!"unsafe parent component for {path.text}: {displayPath tree.root (done ++ [name])}")
    | .ok .directory => currentPathKindFrom path (done ++ [name]) (leaf :: rest)
  | _ => match tree.symlinkMetadata path.segments with
    | .ok .link => .error (.invalidTrackedPath
        s!"{path.text} is a symbolic link or reparse point")
    | .ok (.file _) => .ok .file
    | .ok .directory => .ok .directory
    | .ok .special => .error (.invalidTrackedPath
        s!"{path.text} is not a regular file or directory")
    | .error .notFound => .ok .missing
    | .error error => .error (ioError tree.root path.segments error)

def currentPathKind (path : TrackedUnityFilePath) : CheckPoResult CurrentPathKind :=
  tree.currentPathKindFrom path [] path.segments

end Tracked

/-! What a kind says of the tree. -/

variable {tree : WorkingTree}

/-- How a path stands in the tree. -/
def Stands (tree : WorkingTree) (path : Path) : CurrentPathKind → Prop
  | .missing => ∃ base name rest, path = base ++ name :: rest ∧
      tree.lookup base = some .directory ∧ tree.lookup (base ++ [name]) = none
  | .file => ∃ file, tree.lookup path = some (.file file)
  | .directory => tree.lookup path = some .directory
  | .blockedByFile blocker => ∃ rest, rest ≠ [] ∧ path = blocker.segments ++ rest ∧
      ∃ file, tree.lookup blocker.segments = some (.file file)

theorem stands_of_currentPathKindFrom {path : TrackedUnityFilePath} {kind : CurrentPathKind} :
    ∀ (rest done : Path), path.segments = done ++ rest → rest ≠ [] →
      tree.lookup done = some .directory →
      tree.currentPathKindFrom path done rest = .ok kind → tree.Stands path.segments kind
  | [leaf], done, hpath, _, hdone, h => by
      have hlookup : tree.symlinkMetadata (done ++ [leaf]) =
          orError (tree.lookup (done ++ [leaf])) .notFound := symlinkMetadata_name hdone
      rw [← hpath] at hlookup
      rw [currentPathKindFrom, hlookup] at h
      · rcases hentry : tree.lookup path.segments with _ | entry
        · simp only [hentry, orError, Except.ok.injEq] at h
          exact h ▸ ⟨done, leaf, [], hpath, hdone, hpath ▸ hentry⟩
        · simp only [hentry, orError] at h
          cases entry with
          | file file => exact (Except.ok.inj h) ▸ ⟨file, hentry⟩
          | directory => exact (Except.ok.inj h) ▸ hentry
          | link => cases h
          | special => cases h
      · intro name second others heq
        cases heq
  | name :: leaf :: rest, done, hpath, _, hdone, h => by
      rw [currentPathKindFrom, symlinkMetadata_name hdone] at h
      have hnext : path.segments = (done ++ [name]) ++ leaf :: rest := by simpa using hpath
      rcases hentry : tree.lookup (done ++ [name]) with _ | entry
      · simp only [hentry, orError, Except.ok.injEq] at h
        exact h ▸ ⟨done, name, leaf :: rest, hpath, hdone, hentry⟩
      · simp only [hentry, orError] at h
        cases entry with
        | file file =>
            simp only [except_bind_eq_ok, except_pure_eq_ok] at h
            rcases h with ⟨blocker, hblocker, rfl⟩
            have hsegments := TrackedUnityFilePath.segments_of_parse hblocker
              (fun part hpart => TrackedUnityFilePath.plainName_of_mem_segments
                (hnext ▸ List.mem_append_left _ hpart)) (by simp)
            exact ⟨leaf :: rest, List.cons_ne_nil _ _, hsegments ▸ hnext, file,
              hsegments ▸ hentry⟩
        | directory =>
            exact stands_of_currentPathKindFrom (leaf :: rest) (done ++ [name]) hnext
              (List.cons_ne_nil _ _) hentry h
        | link => cases h
        | special => cases h

theorem stands_of_currentPathKind {path : TrackedUnityFilePath} {kind : CurrentPathKind}
    (h : tree.currentPathKind path = .ok kind) : tree.Stands path.segments kind :=
  stands_of_currentPathKindFrom path.segments [] rfl path.segments_ne_nil tree.rooted h

end WorkingTree

end CheckPo
