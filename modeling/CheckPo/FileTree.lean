/-
Trees of files: what stands at each path.  An entry is erased or moved together with
everything below it.  Nothing here names the repository.
-/
import Mathlib

namespace CheckPo

/-- The components of a path; the root of a tree is the empty path. -/
abbrev Path := List String

/-! Names. -/

/-- `Path::extension` of a file name. -/
def extension (name : String) : Option String :=
  let reversed := name.toList.reverse
  let text := reversed.takeWhile fun character => character != '.'
  match reversed.drop text.length with
  | _ :: _ :: _ => some (String.ofList text.reverse)
  | _ => none

/-- `strip_suffix`. -/
def stripSuffix (suffix name : String) : Option String :=
  if suffix.toList <:+ name.toList then
    some (String.ofList (name.toList.take (name.toList.length - suffix.toList.length)))
  else none

def displayPath (root : String) (path : Path) : String := "/".intercalate (root :: path)

theorem stripSuffix_append (suffix name : String) :
    stripSuffix suffix (name ++ suffix) = some name := by
  rw [stripSuffix, String.toList_append, if_pos (List.suffix_append _ _), List.length_append,
    Nat.add_sub_cancel, List.take_left, String.ofList_toList]

/-! Trees. -/

inductive TreeEntry (α : Type) where
  | file (content : α)
  | directory
  | link
  | special
deriving DecidableEq

/-- Finitely many paths have an entry. -/
structure FileTree (α : Type) where
  entry : Path → Option (TreeEntry α)
  paths : Finset Path
  mem_paths : ∀ path, path ∈ paths ↔ entry path ≠ none

namespace FileTree

variable {α : Type}

@[ext] theorem ext_entry {left right : FileTree α} (h : ∀ path, left.entry path = right.entry path) :
    left = right := by
  have hentry : left.entry = right.entry := funext h
  have hpaths : left.paths = right.paths := by
    ext path
    rw [left.mem_paths, right.mem_paths, h]
  cases left
  cases right
  cases hentry
  cases hpaths
  rfl

/-- A tree of these entries; the first one of a path counts. -/
def ofList (entries : List (Path × TreeEntry α)) : FileTree α where
  entry path := entries.lookup path
  paths := (entries.map Prod.fst).toFinset
  mem_paths path := by
    rw [List.mem_toFinset, List.mem_map, Ne, List.lookup_eq_none_iff]
    simp only [bne_iff_ne, not_forall, not_not, exists_prop]
    exact exists_congr fun entry => and_congr_right fun _ => eq_comm

def file (tree : FileTree α) (path : Path) : Option α :=
  match tree.entry path with
  | some (.file content) => some content
  | _ => none

theorem file_eq_some {tree : FileTree α} {path : Path} {content : α} :
    tree.file path = some content ↔ tree.entry path = some (.file content) := by
  rw [file]
  split
  · next found h => rw [h, Option.some.injEq, Option.some.injEq, TreeEntry.file.injEq]
  · next hother =>
      constructor
      · exact nofun
      · exact fun h => absurd h (hother content)

/-- What a walk from a directory passes, without the directory itself. -/
def below (tree : FileTree α) (top : Path) : Finset Path :=
  tree.paths.filter fun path => top <+: path ∧ path ≠ top

theorem mem_below {tree : FileTree α} {top path : Path} :
    path ∈ tree.below top ↔ tree.entry path ≠ none ∧ top <+: path ∧ path ≠ top := by
  rw [below, Finset.mem_filter, tree.mem_paths]

/-- A walk in the order of the paths, where a directory comes before what is below it. -/
def walk (tree : FileTree α) (top : Path) : List Path := (tree.below top).sort (· ≤ ·)

@[simp] theorem mem_walk {tree : FileTree α} {top path : Path} :
    path ∈ tree.walk top ↔ path ∈ tree.below top :=
  Finset.mem_sort _

/-! Erasing. -/

def erase (tree : FileTree α) (gone : Path) : FileTree α where
  entry path := if gone <+: path then none else tree.entry path
  paths := tree.paths.filter fun path => ¬ gone <+: path
  mem_paths path := by
    rw [Finset.mem_filter, tree.mem_paths]
    split <;> simp_all

theorem entry_erase_of_not {tree : FileTree α} {gone path : Path} (h : ¬ gone <+: path) :
    (tree.erase gone).entry path = tree.entry path :=
  if_neg h

/-! Moving. -/

def move (tree : FileTree α) (source target : Path) : FileTree α where
  entry path :=
    if target <+: path then tree.entry (source ++ path.drop target.length)
    else if source <+: path then none
    else tree.entry path
  paths := (tree.paths.filter fun path => ¬ source <+: path ∧ ¬ target <+: path) ∪
    (tree.paths.filter fun path => source <+: path).image
      fun path => target ++ path.drop source.length
  mem_paths path := by
    rw [Finset.mem_union, Finset.mem_filter, Finset.mem_image]
    by_cases htarget : target <+: path
    · obtain ⟨rest, rfl⟩ := htarget
      have hstarts := List.prefix_append target rest
      rw [if_pos hstarts, List.drop_left, ← tree.mem_paths]
      constructor
      · rintro (⟨-, -, hnot⟩ | ⟨other, hother, heq⟩)
        · exact absurd hstarts hnot
        · obtain ⟨hmem, tail, rfl⟩ := Finset.mem_filter.mp hother
          rw [List.drop_left, List.append_cancel_left_eq] at heq
          rwa [← heq]
      · intro hmem
        refine Or.inr ⟨_, Finset.mem_filter.mpr ⟨hmem, List.prefix_append _ _⟩, ?_⟩
        rw [List.drop_left]
    · rw [if_neg htarget, tree.mem_paths]
      have himage : ¬ ∃ other ∈ tree.paths.filter fun other => source <+: other,
          target ++ other.drop source.length = path := by
        rintro ⟨other, -, rfl⟩
        exact htarget (List.prefix_append _ _)
      by_cases hsource : source <+: path
      · rw [if_pos hsource]
        exact ⟨fun h => h.elim (fun h => absurd hsource h.2.1) fun h => absurd h himage,
          fun h => absurd rfl h⟩
      · rw [if_neg hsource]
        exact ⟨fun h => h.elim And.left fun h => absurd h himage,
          fun h => Or.inl ⟨h, hsource, htarget⟩⟩

variable {tree : FileTree α} {source target path : Path}

theorem entry_move_of_not (hsource : ¬ source <+: path) (htarget : ¬ target <+: path) :
    (tree.move source target).entry path = tree.entry path :=
  (if_neg htarget).trans (if_neg hsource)

theorem entry_move_source (hsource : source <+: path) (htarget : ¬ target <+: path) :
    (tree.move source target).entry path = none :=
  (if_neg htarget).trans (if_pos hsource)

@[simp] theorem entry_move_target (rest : Path) :
    (tree.move source target).entry (target ++ rest) = tree.entry (source ++ rest) := by
  refine (if_pos (List.prefix_append _ _)).trans ?_
  rw [List.drop_left]

/-- Moving to a free place and back again changes nothing. -/
theorem move_move (hfree : ∀ path, target <+: path → tree.entry path = none) :
    (tree.move source target).move target source = tree := by
  ext1 path
  by_cases hsource : source <+: path
  · obtain ⟨rest, rfl⟩ := hsource
    rw [entry_move_target, entry_move_target]
  · by_cases htarget : target <+: path
    · rw [entry_move_source htarget hsource, hfree path htarget]
    · rw [entry_move_of_not htarget hsource, entry_move_of_not hsource htarget]

end FileTree

end CheckPo
