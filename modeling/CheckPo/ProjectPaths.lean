/-
Tracked paths below a project: their components, which paths stand below which, and the
Unity `.meta` companion of an asset.
-/
import CheckPo.FileTree
import CheckPo.MerkleCodecRoundTrip
import CheckPo.TrackedPath

namespace CheckPo

/-- `parts.join("/")`. -/
def joinParts (parts : Path) : String := "/".intercalate parts

/-- A name that can stand between two slashes. -/
def PlainName (name : String) : Prop := '/' ∉ name.toList

instance (name : String) : Decidable (PlainName name) :=
  inferInstanceAs (Decidable ('/' ∉ name.toList))

theorem not_mem_of_mem_splitOn {α : Type} [DecidableEq α] {separator : α} {values part : List α}
    (h : part ∈ values.splitOn separator) : separator ∉ part := by
  induction values generalizing part with
  | nil =>
      rw [List.splitOn_nil, List.mem_singleton] at h
      exact h ▸ List.not_mem_nil
  | cons head rest ih =>
      rw [List.splitOn_cons_eq_if_modifyHead] at h
      split at h
      · rcases List.mem_cons.mp h with rfl | hrest
        · exact List.not_mem_nil
        · exact ih hrest
      · next hhead =>
          rcases hparts : rest.splitOn separator with _ | ⟨first, others⟩
          · rw [hparts] at h
            exact absurd h List.not_mem_nil
          · rw [hparts, List.modifyHead_cons] at h
            rcases List.mem_cons.mp h with rfl | hothers
            · have hfirst := ih (hparts ▸ List.mem_cons_self)
              simp only [List.mem_cons, not_or]
              exact ⟨fun heq => hhead (by simp [heq]), hfirst⟩
            · exact ih (hparts ▸ List.mem_cons_of_mem first hothers)

/-- The names between the slashes are the names that were put together. -/
theorem splitOn_joinParts {parts : Path} (hplain : ∀ name ∈ parts, PlainName name)
    (hparts : parts ≠ []) :
    ((joinParts parts).toList.splitOn '/').map String.ofList = parts := by
  have hslash : ∀ name ∈ parts.map String.toList, '/' ∉ name := by
    intro name hname
    rcases List.mem_map.mp hname with ⟨part, hpart, rfl⟩
    exact hplain part hpart
  rw [joinParts, String.toList_intercalate, show "/".toList = ['/'] from rfl,
    List.splitOn_intercalate '/' hslash (by simpa using hparts), List.map_map]
  exact List.map_id'' (fun part => String.ofList_toList) _

theorem joinParts_append {front rest : Path} (hfront : front ≠ []) (hrest : rest ≠ []) :
    joinParts (front ++ rest) = joinParts front ++ "/" ++ joinParts rest := by
  rw [joinParts, String.intercalate_append_of_ne_nil hfront hrest, ← joinParts, ← joinParts]

/-- What starts with a path and a slash has the names of the path and more. -/
theorem prefix_joinParts_iff {front parts : Path} (hfront : front ≠ []) (hparts : parts ≠ [])
    (hfrontPlain : ∀ name ∈ front, PlainName name) (hplain : ∀ name ∈ parts, PlainName name) :
    (joinParts front).toList ++ ['/'] <+: (joinParts parts).toList ↔
      ∃ rest, rest ≠ [] ∧ parts = front ++ rest := by
  constructor
  · rintro ⟨rest, hrest⟩
    refine ⟨(rest.splitOn '/').map String.ofList, ?_, ?_⟩
    · rw [Ne, List.map_eq_nil_iff]
      exact List.splitOn_ne_nil '/' rest
    · rw [← splitOn_joinParts hplain hparts, ← hrest, List.append_assoc, List.singleton_append,
        List.splitOn_append_cons_self, List.map_append, splitOn_joinParts hfrontPlain hfront]
  · rintro ⟨rest, hrest, rfl⟩
    rw [joinParts_append hfront hrest, String.toList_append, String.toList_append]
    exact List.prefix_append _ _

namespace TrackedUnityFilePath

/-- `path.as_str().split('/')`. -/
def segments (path : TrackedUnityFilePath) : Path :=
  (path.text.toList.splitOn '/').map String.ofList

/-- Paths are compared as byte strings. -/
instance : LinearOrder TrackedUnityFilePath where
  __ := PartialOrder.lift (fun path : TrackedUnityFilePath => utf8 path.text) fun _ _ h =>
    text_injective (utf8_injective h)
  le_total left right := le_total (utf8 left.text) (utf8 right.text)
  toDecidableLE left right := inferInstanceAs (Decidable (utf8 left.text ≤ utf8 right.text))
  toDecidableEq := inferInstance

instance transLe : IsTrans TrackedUnityFilePath (· ≤ ·) := inferInstance

instance antisymmLe : Std.Antisymm fun left right : TrackedUnityFilePath => left ≤ right :=
  inferInstance

theorem map_toList_segments (path : TrackedUnityFilePath) :
    path.segments.map String.toList = path.text.toList.splitOn '/' := by
  rw [segments, List.map_map]
  exact List.map_id'' (fun text => String.toList_ofList) _

@[simp] theorem joinParts_segments (path : TrackedUnityFilePath) :
    joinParts path.segments = path.text := by
  apply String.toList_injective
  rw [joinParts, String.toList_intercalate, map_toList_segments]
  exact List.intercalate_splitOn '/'

theorem segments_injective {left right : TrackedUnityFilePath}
    (h : left.segments = right.segments) : left = right := by
  apply text_injective
  rw [← joinParts_segments, h, joinParts_segments]

/-- A path that was put together from names has these names as its components. -/
theorem segments_of_parse {parts : Path} {path : TrackedUnityFilePath}
    (h : parse (joinParts parts) = .ok path) (hplain : ∀ name ∈ parts, PlainName name)
    (hparts : parts ≠ []) : path.segments = parts := by
  rw [segments, parse_eq_ok h, splitOn_joinParts hplain hparts]

theorem plainName_of_mem_segments {path : TrackedUnityFilePath} {name : String}
    (h : name ∈ path.segments) : PlainName name := by
  rcases List.mem_map.mp h with ⟨chars, hchars, rfl⟩
  rw [PlainName, String.toList_ofList]
  exact fun hslash => not_mem_of_mem_splitOn hchars hslash

theorem segments_ne_nil (path : TrackedUnityFilePath) : path.segments ≠ [] := by
  rw [segments, Ne, List.map_eq_nil_iff]
  exact List.splitOn_ne_nil '/' path.text.toList

/-- A tracked root alone is not a tracked path. -/
theorem two_le_length_segments (path : TrackedUnityFilePath) : 2 ≤ path.segments.length := by
  have hvalid := path.valid
  simp only [checkTrackedPath, except_guard_eq_ok, not_lt] at hvalid
  rw [segments, List.length_map]
  exact hvalid.2.2.2.2.1

/-- `path_is_strict_descendant`: the rest after the root's text starts with a slash. -/
def isStrictDescendant (candidate root : TrackedUnityFilePath) : Bool :=
  (root.text.toList ++ ['/']).isPrefixOf candidate.text.toList

def isSameOrDescendant (candidate root : TrackedUnityFilePath) : Bool :=
  candidate == root || candidate.isStrictDescendant root

/-- The descendants of a path have its components and more. -/
theorem isStrictDescendant_iff {candidate root : TrackedUnityFilePath} :
    candidate.isStrictDescendant root = true ↔
      ∃ rest, rest ≠ [] ∧ candidate.segments = root.segments ++ rest := by
  rw [isStrictDescendant, List.isPrefixOf_iff_prefix, ← joinParts_segments root,
    ← joinParts_segments candidate]
  exact prefix_joinParts_iff root.segments_ne_nil candidate.segments_ne_nil
    (fun _ => plainName_of_mem_segments) fun _ => plainName_of_mem_segments

end TrackedUnityFilePath

/-! Companions. -/

/-- `unity_asset_companion_path`. -/
def unityAssetCompanionPath (path : TrackedUnityFilePath) : Option TrackedUnityFilePath :=
  if "Assets/".toList <+: path.text.toList then
    (TrackedUnityFilePath.parse (match stripSuffix ".meta" path.text with
      | some asset => asset
      | none => path.text ++ ".meta")).toOption
  else none

end CheckPo
