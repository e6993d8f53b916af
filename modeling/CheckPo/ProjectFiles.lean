/-
The files of a project under change: whatever is made, moved or removed, every entry stands
in a directory and every name can be part of a path.
-/
import CheckPo.TreeListing
import CheckPo.WorkingTree

namespace CheckPo

namespace FileTree

variable {α : Type} {tree : FileTree α} {path : Path} {value : TreeEntry α}

/-- What takes the place of something that is no directory has nothing below it. -/
theorem Closed.put (h : tree.Closed) (hparent : tree.entry path.dropLast = some .directory)
    (hplace : tree.entry path ≠ some .directory) : (tree.put path value).Closed := by
  intro other name hentry
  have hnot : other ≠ path := by
    rintro rfl
    rw [entry_put_of_ne fun heq => by simpa using congrArg List.length heq] at hentry
    exact hplace (h _ _ hentry)
  rw [entry_put_of_ne hnot]
  by_cases hself : other ++ [name] = path
  · rw [← hself, List.dropLast_concat] at hparent
    exact hparent
  · rw [entry_put_of_ne hself] at hentry
    exact h other name hentry

end FileTree

/-- Everything below a project root. -/
structure ProjectFiles where
  tree : FileTree ProjectFile
  rooted : tree.entry [] = some .directory
  closed : tree.Closed
  plain : ∀ path, tree.entry path ≠ none → ∀ name ∈ path, PlainName name

namespace ProjectFiles

def entry (files : ProjectFiles) (path : Path) : Option (TreeEntry ProjectFile) :=
  files.tree.entry path

variable (files : ProjectFiles)

/-- The tree as the readers of the project see it; names are exact. -/
def workingTree (root : String) (beyondLink : Path → Except LookupError (TreeEntry ProjectFile)) :
    WorkingTree where
  root := root
  files := files.tree
  lookup := files.tree.entry
  beyondLink := beyondLink
  rooted := files.rooted
  parents := files.closed
  listed _ _ := rfl
  plain := files.plain

/-! Making, moving and removing. -/

/-- A place that something new can take. -/
def Receives (path : Path) : Prop :=
  path ≠ [] ∧ files.tree.entry path.dropLast = some .directory ∧ PlainName (path.getLastD "") ∧
    files.tree.entry path ≠ some .directory

instance decidableReceives (path : Path) : Decidable (files.Receives path) :=
  inferInstanceAs (Decidable (_ ∧ _ ∧ _ ∧ _))

theorem plain_of_receives {path : Path} (h : files.Receives path) :
    ∀ name ∈ path, PlainName name := by
  rcases h with ⟨hne, hparent, hlast, -⟩
  rw [← List.dropLast_append_getLast hne, List.forall_mem_append]
  refine ⟨files.plain _ (by rw [hparent]; exact Option.some_ne_none _), ?_⟩
  rw [List.getLastD_eq_getLast?, List.getLast?_eq_getLast_of_ne_nil hne] at hlast
  simpa using hlast

def put (path : Path) (value : TreeEntry ProjectFile) : ProjectFiles :=
  if h : files.Receives path then
    { tree := files.tree.put path value
      rooted := by rw [FileTree.entry_put_of_ne h.1.symm, files.rooted]
      closed := files.closed.put h.2.1 h.2.2.2
      plain := by
        intro other hother
        by_cases hself : other = path
        · rw [hself]
          exact files.plain_of_receives h
        · rw [FileTree.entry_put_of_ne hself] at hother
          exact files.plain other hother }
  else files

def erase (path : Path) : ProjectFiles :=
  if h : path = [] then files
  else
    { tree := files.tree.erase path
      rooted := by
        rw [FileTree.entry_erase_of_not fun hstarts => h (List.prefix_nil.mp hstarts), files.rooted]
      closed := files.closed.erase path
      plain := by
        intro other hother
        by_cases hstarts : path <+: other
        · exact absurd (FileTree.entry_erase_below hstarts) hother
        · rw [FileTree.entry_erase_of_not hstarts] at hother
          exact files.plain other hother }

/-- `renameat2` without replacing: the target is free, and not below the source. -/
def Renames (source target : Path) : Prop :=
  source ≠ [] ∧ files.Receives target ∧ ¬ source <+: target.dropLast

instance decidableRenames (source target : Path) : Decidable (files.Renames source target) :=
  inferInstanceAs (Decidable (_ ∧ _ ∧ _))

def move (source target : Path) : ProjectFiles :=
  if h : files.Renames source target then
    { tree := files.tree.move source target
      rooted := by
        rw [FileTree.entry_move_of_not (fun hstarts => h.1 (List.prefix_nil.mp hstarts))
          fun hstarts => h.2.1.1 (List.prefix_nil.mp hstarts), files.rooted]
      closed := by
        have htarget := List.dropLast_append_getLast h.2.1.1
        rw [← htarget]
        exact files.closed.move h.2.1.2.1 h.2.2
      plain := by
        intro other hother
        by_cases htarget : target <+: other
        · rcases htarget with ⟨rest, rfl⟩
          rw [FileTree.entry_move_target] at hother
          rw [List.forall_mem_append]
          exact ⟨files.plain_of_receives h.2.1, fun name hname =>
            files.plain _ hother name (List.mem_append_right _ hname)⟩
        · by_cases hsource : source <+: other
          · exact absurd (FileTree.entry_move_source hsource htarget) hother
          · rw [FileTree.entry_move_of_not hsource htarget] at hother
            exact files.plain other hother }
  else files

/-! What stands where afterwards. -/

variable {files} {path other source target : Path} {value : TreeEntry ProjectFile}

theorem entry_put (h : files.Receives path) :
    (files.put path value).entry other = if other = path then some value else files.entry other := by
  rw [put, dif_pos h]
  rfl

theorem entry_put_of_ne (h : other ≠ path) : (files.put path value).entry other = files.entry other := by
  by_cases hreceives : files.Receives path
  · rw [entry_put hreceives, if_neg h]
  · rw [put, dif_neg hreceives]

theorem entry_erase (hpath : path ≠ []) :
    (files.erase path).entry other = if path <+: other then none else files.entry other := by
  rw [erase, dif_neg hpath]
  rfl

theorem entry_above (hentry : files.entry other ≠ none) (hstarts : path <+: other)
    (hne : other ≠ path) : files.entry path = some .directory :=
  files.closed.entry_of_start hstarts hne hentry

theorem entry_eq_none_below (hpath : files.entry path ≠ some .directory) (hstarts : path <+: other)
    (hne : other ≠ path) : files.entry other = none :=
  files.closed.entry_eq_none hstarts hpath hne

theorem entry_move_of_not (hsource : ¬ source <+: path) (htarget : ¬ target <+: path) :
    (files.move source target).entry path = files.entry path := by
  by_cases h : files.Renames source target
  · rw [move, dif_pos h]
    exact FileTree.entry_move_of_not hsource htarget
  · rw [move, dif_neg h]

theorem entry_move_source (h : files.Renames source target) (hsource : source <+: path)
    (htarget : ¬ target <+: path) : (files.move source target).entry path = none := by
  rw [move, dif_pos h]
  exact FileTree.entry_move_source hsource htarget

theorem entry_move_target (h : files.Renames source target) (rest : Path) :
    (files.move source target).entry (target ++ rest) = files.entry (source ++ rest) := by
  rw [move, dif_pos h]
  exact FileTree.entry_move_target rest

end ProjectFiles

end CheckPo
