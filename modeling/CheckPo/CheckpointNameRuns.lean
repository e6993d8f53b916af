/-
What the names file reads back as after any run of renames, deletions and prunes: the map
that the operations define, as long as its text is within the reader's limit.
-/
import CheckPo.CheckpointNames
import CheckPo.MerkleCodecRoundTrip

namespace CheckPo

/-! Trimming. -/

theorem dropWhile_idem {α : Type} (p : α → Bool) (values : List α) :
    (values.dropWhile p).dropWhile p = values.dropWhile p := by
  induction values with
  | nil => rfl
  | cons head rest ih =>
      rw [List.dropWhile_cons]
      split
      · exact ih
      · next h => rw [List.dropWhile_cons_of_neg h]

/-- Trimming the end leaves a beginning that is not white space. -/
theorem dropWhile_reverse_dropWhile (p : Char → Bool) (chars : List Char)
    (h : chars.dropWhile p = chars) :
    ((chars.reverse.dropWhile p).reverse).dropWhile p = (chars.reverse.dropWhile p).reverse := by
  rcases htrimmed : (chars.reverse.dropWhile p).reverse with _ | ⟨head, rest⟩
  · rfl
  · have hstarts : (chars.reverse.dropWhile p).reverse <+: chars := by
      have hsuffix := List.dropWhile_suffix (l := chars.reverse) p
      rwa [← List.reverse_prefix, List.reverse_reverse] at hsuffix
    rw [htrimmed] at hstarts
    rcases hstarts with ⟨more, rfl⟩
    apply List.dropWhile_cons_of_neg
    intro hhead
    rw [List.cons_append, List.dropWhile_cons_of_pos hhead] at h
    have hlength := (List.dropWhile_suffix (l := rest ++ more) p).length_le
    rw [h, List.length_cons] at hlength
    omega

theorem trim_trim (text : String) : trim (trim text) = trim text := by
  have hstart := dropWhile_reverse_dropWhile isWhiteSpace (text.toList.dropWhile isWhiteSpace)
    (dropWhile_idem isWhiteSpace text.toList)
  rw [trim, trim, String.toList_ofList, hstart, List.reverse_reverse, dropWhile_idem]

/-! The map that operations define. -/

structure NamedCheckpoints where
  snapshots : SnapshotId → Option String
  names : NameMap

/-- The last name of each checkpoint, unless it is the one in its root. -/
def NamesOperation.define (state : NamedCheckpoints) : NamesOperation → NamedCheckpoints
  | create id name => { state with snapshots := Function.update state.snapshots id (some name) }
  | rename checkpointId name => { state with
      names := match parseLowerHexId "snapshot" checkpointId with
        | .error _ => state.names
        | .ok id =>
            if state.snapshots id = some (trim name) then state.names.erase id.toHex
            else state.names.insert id.toHex (trim name) }
  | delete checkpointId => match parseLowerHexId "snapshot" checkpointId with
      | .error _ => state
      | .ok id =>
          { snapshots := Function.update state.snapshots id none
            names := state.names.erase id.toHex }
  | prune live => { state with
      names := state.names.filter fun checkpointId _ =>
        decide (checkpointId ∈ live.map fun id => id.toHex) }

/-- An entry that the reader takes as it is. -/
def ValidName (checkpointId name : String) : Prop :=
  (∃ id : SnapshotId, checkpointId = id.toHex) ∧ trim name = name ∧ name ≠ "" ∧
    (utf8 name).length ≤ maxCheckpointNameBytes

/-- The file of a map of valid names; there is none before the first one is written. -/
structure NamesFile (json : NamesJson) (names : NameMap) (namesFile : Option Bytes) : Prop where
  valid : ∀ checkpointId name, names[checkpointId]? = some name → ValidName checkpointId name
  file : namesFile = some (json.toVec names) ∨ namesFile = none ∧ names = ∅

section Names

variable {json : NamesJson} {names : NameMap} {namesFile : Option Bytes}

theorem readNameEntry_valid {state : NameMap × List String} {checkpointId name : String}
    (h : ValidName checkpointId name) :
    readNameEntry state (checkpointId, some name) = (state.1.insert checkpointId name, state.2) := by
  rcases h with ⟨⟨id, rfl⟩, htrim, hne, hlength⟩
  have hname : ((some name).map trim).filter (fun name => name != "") = some name := by
    rw [Option.map_some, htrim, Option.filter_some, if_pos (bne_iff_ne.mpr hne)]
  simp only [readNameEntry, parseLowerHexId_toHex, hname, if_neg (Nat.not_lt.mpr hlength)]

theorem foldl_readNameEntry {entries : List (String × String)}
    (hentries : ∀ entry ∈ entries, ValidName entry.1 entry.2) (state : NameMap × List String) :
    (entries.map fun entry => (entry.1, some entry.2)).foldl readNameEntry state =
      (entries.foldl (fun names entry => names.insert entry.1 entry.2) state.1, state.2) := by
  induction entries generalizing state with
  | nil => rfl
  | cons entry entries ih =>
      rw [List.map_cons, List.foldl_cons, List.foldl_cons,
        readNameEntry_valid (hentries entry List.mem_cons_self),
        ih fun other hother => hentries other (List.mem_cons_of_mem entry hother)]

/-- Inserting the entries of a map one by one builds the map. -/
theorem foldl_insert_toList {α : Type} (map : Std.ExtTreeMap String α compare) :
    map.toList.foldl (fun built entry => built.insert entry.1 entry.2) ∅ = map := by
  rw [← Std.ExtTreeMap.ofList_eq_foldl]
  apply Std.ExtTreeMap.ext_getElem?
  intro key
  rcases hkey : map[key]? with _ | value
  · apply Std.ExtTreeMap.getElem?_ofList_of_contains_eq_false
    rw [Std.ExtTreeMap.map_fst_toList_eq_keys, ← Bool.not_eq_true, List.contains_iff_mem,
      Std.ExtTreeMap.mem_keys, Std.ExtTreeMap.mem_iff_isSome_getElem?, hkey]
    exact Bool.false_ne_true
  · exact Std.ExtTreeMap.getElem?_ofList_of_mem Std.ReflCmp.compare_self
      Std.ExtTreeMap.distinct_keys_toList
      (Std.ExtTreeMap.mem_toList_iff_getElem?_eq_some.mpr hkey)

/-- Within the limit the file reads back as the map; past it there is a warning. -/
theorem NamesFile.read (h : NamesFile json names namesFile) :
    (namesFile = none ∨ (json.toVec names).length ≤ maxCheckpointNamesFileBytes) ∧
        readCheckpointNameOverrides json namesFile = (names, []) ∨
      maxCheckpointNamesFileBytes < (json.toVec names).length ∧
        (readCheckpointNameOverrides json namesFile).2 ≠ [] := by
  rcases h.file with rfl | ⟨rfl, rfl⟩
  · rcases Nat.lt_or_ge maxCheckpointNamesFileBytes (json.toVec names).length with hlt | hle
    · right
      simp only [readCheckpointNameOverrides, readBytesBounded, if_pos hlt]
      exact ⟨hlt, List.cons_ne_nil _ _⟩
    · left
      have hentries : ∀ entry ∈ names.toList, ValidName entry.1 entry.2 := fun entry hentry =>
        h.valid entry.1 entry.2 (Std.ExtTreeMap.mem_toList_iff_getElem?_eq_some.mp hentry)
      simp only [readCheckpointNameOverrides, readBytesBounded, if_neg (Nat.not_lt.mpr hle),
        except_bind_ok, json.fromSlice_toVec, Std.ExtTreeMap.toList_map]
      rw [foldl_readNameEntry hentries, foldl_insert_toList]
      exact ⟨Or.inr hle, rfl⟩
  · exact Or.inl ⟨Or.inl rfl, rfl⟩

theorem readForMutation_eq_ok (h : NamesFile json names namesFile) {read : NameMap}
    (hread : readCheckpointNameOverridesForMutation json namesFile = .ok read) : read = names := by
  rw [readCheckpointNameOverridesForMutation, except_ensure_eq_ok] at hread
  rcases hread with ⟨hwarnings, hnames⟩
  rcases h.read with ⟨-, heq⟩ | ⟨-, hne⟩
  · rw [heq, Except.ok.injEq] at hnames
    exact hnames.symm
  · exact absurd hwarnings hne

theorem NamesFile.insert (h : NamesFile json names namesFile) {id : SnapshotId} {name : String}
    (htrim : trim name = name) (hne : name ≠ "")
    (hlength : (utf8 name).length ≤ maxCheckpointNameBytes) :
    NamesFile json (names.insert id.toHex name)
      (writeCheckpointNameOverrides json (names.insert id.toHex name)) := by
  refine ⟨?_, Or.inl rfl⟩
  intro checkpointId other hother
  rw [Std.ExtTreeMap.getElem?_insert] at hother
  split at hother
  · next hkey =>
      rw [Option.some.injEq] at hother
      exact ⟨⟨id, (Std.LawfulEqCmp.eq_of_compare hkey).symm⟩, hother ▸ ⟨htrim, hne, hlength⟩⟩
  · exact h.valid checkpointId other hother

theorem NamesFile.erase (h : NamesFile json names namesFile) (id : SnapshotId) :
    NamesFile json (names.erase id.toHex)
      (writeCheckpointNameOverrides json (names.erase id.toHex)) := by
  refine ⟨?_, Or.inl rfl⟩
  intro checkpointId other hother
  rw [Std.ExtTreeMap.getElem?_erase] at hother
  split at hother
  · exact absurd hother (Option.some_ne_none other).symm
  · exact h.valid checkpointId other hother

theorem NamesFile.filter (h : NamesFile json names namesFile) (keep : String → Bool) :
    NamesFile json (names.filter fun checkpointId _ => keep checkpointId)
      (writeCheckpointNameOverrides json (names.filter fun checkpointId _ => keep checkpointId)) := by
  refine ⟨?_, Or.inl rfl⟩
  intro checkpointId other hother
  rw [Std.ExtTreeMap.getElem?_filter', Option.filter_eq_some_iff] at hother
  exact h.valid checkpointId other hother.1

theorem NamesFile.remove (h : NamesFile json names namesFile) {id : SnapshotId}
    {removed : Option Bytes} (hremove : removeCheckpointNameOverride json id namesFile = .ok removed) :
    NamesFile json (names.erase id.toHex) removed := by
  rw [removeCheckpointNameOverride, except_bind_eq_ok] at hremove
  rcases hremove with ⟨read, hread, hwrite⟩
  rw [readForMutation_eq_ok h hread] at hwrite
  split at hwrite
  · rw [except_pure_eq_ok] at hwrite
    exact hwrite ▸ h.erase id
  · next hnotMem =>
      rw [except_pure_eq_ok] at hwrite
      have hsame : names.erase id.toHex = names := by
        apply Std.ExtTreeMap.ext_getElem?
        intro key
        rw [Std.ExtTreeMap.getElem?_erase]
        split
        · next hkey =>
            rw [← Std.LawfulEqCmp.eq_of_compare hkey]
            exact (Std.ExtTreeMap.getElem?_eq_none hnotMem).symm
        · rfl
      rw [hsame, ← hwrite]
      exact h

theorem NamesFile.prune (h : NamesFile json names namesFile) {live : List SnapshotId}
    {pruned : Option Bytes} (hprune : pruneCheckpointNameOverrides json live namesFile = .ok pruned) :
    NamesFile json (names.filter fun checkpointId _ =>
      decide (checkpointId ∈ live.map fun id => id.toHex)) pruned := by
  rw [pruneCheckpointNameOverrides, except_bind_eq_ok] at hprune
  rcases hprune with ⟨read, hread, hwrite⟩
  rw [readForMutation_eq_ok h hread] at hwrite
  dsimp only at hwrite
  split at hwrite
  · rw [except_pure_eq_ok] at hwrite
    exact hwrite ▸ h.filter fun checkpointId =>
      decide (checkpointId ∈ live.map fun id => id.toHex)
  · next hnone =>
      rw [except_pure_eq_ok] at hwrite
      have hsize : (names.filter fun checkpointId _ =>
          decide (checkpointId ∈ live.map fun id => id.toHex)).size = names.size := by
        have hle := Std.ExtTreeMap.size_filter_le_size (t := names) (f := fun checkpointId _ =>
          decide (checkpointId ∈ live.map fun id => id.toHex))
        omega
      have hsame := Std.ExtTreeMap.filter_eq_self_iff.mpr
        (Std.ExtTreeMap.size_filter_eq_size_iff.mp hsize)
      rw [hsame, ← hwrite]
      exact h

/-- One operation keeps the file that of the map defined so far. -/
theorem NamesOperation.run_spec {operation : NamesOperation} {checkpoints : NamedCheckpoints}
    {state next : CheckpointNamesState} (hsnapshots : state.snapshots = checkpoints.snapshots)
    (h : NamesFile json checkpoints.names state.namesFile)
    (hrun : operation.run json state = .ok next) :
    next.snapshots = (operation.define checkpoints).snapshots ∧
      NamesFile json (operation.define checkpoints).names next.namesFile := by
  cases operation with
  | create id name =>
      rw [run, except_pure_eq_ok] at hrun
      rw [← hrun, define, ← hsnapshots]
      exact ⟨rfl, h⟩
  | rename checkpointId name =>
      rw [run, renameCheckpoint] at hrun
      simp only [except_guard_eq_ok, except_bind_eq_ok] at hrun
      rcases hrun with ⟨hne, hlength, id, hid, hrun⟩
      rcases hsnapshot : state.snapshots id with _ | snapshotName
      · rw [hsnapshot] at hrun
        exact absurd hrun (by simp)
      · rw [hsnapshot] at hrun
        simp only [except_bind_eq_ok, except_pure_eq_ok] at hrun
        rcases hrun with ⟨read, hread, rfl⟩
        have hstored : (checkpoints.snapshots id = some (trim name)) = (trim name = snapshotName) := by
          rw [← hsnapshots, hsnapshot, Option.some.injEq, eq_comm (a := snapshotName)]
        rw [readForMutation_eq_ok h hread]
        simp only [define, hid, hstored]
        refine ⟨hsnapshots, ?_⟩
        split
        · exact h.erase id
        · exact h.insert (trim_trim name) hne (Nat.le_of_not_lt hlength)
  | delete checkpointId =>
      rw [run, deleteCheckpoint] at hrun
      simp only [except_bind_eq_ok] at hrun
      rcases hrun with ⟨id, hid, hrun⟩
      rcases hsnapshot : state.snapshots id with _ | snapshotName
      · rw [hsnapshot] at hrun
        exact absurd hrun (by simp)
      · rw [hsnapshot] at hrun
        simp only [except_bind_eq_ok] at hrun
        rcases hrun with ⟨read, hread, hrun⟩
        simp only [define, hid]
        rcases hremove : removeCheckpointNameOverride json id state.namesFile with error | removed
        · -- the names were read without a warning before, so the removal reads them too
          rw [removeCheckpointNameOverride, hread, except_bind_ok] at hremove
          split at hremove <;> cases hremove
        · rw [hremove] at hrun
          simp only [except_pure_eq_ok] at hrun
          rw [← hrun, ← hsnapshots]
          exact ⟨rfl, h.remove hremove⟩
  | prune live =>
      rw [run] at hrun
      simp only [except_bind_eq_ok, except_pure_eq_ok] at hrun
      rcases hrun with ⟨pruned, hprune, rfl⟩
      exact ⟨hsnapshots, h.prune hprune⟩

theorem runs_spec {operations : List NamesOperation} {checkpoints : NamedCheckpoints}
    {state final : CheckpointNamesState} (hsnapshots : state.snapshots = checkpoints.snapshots)
    (h : NamesFile json checkpoints.names state.namesFile)
    (hrun : operations.foldlM (NamesOperation.run json) state = .ok final) :
    NamesFile json (operations.foldl NamesOperation.define checkpoints).names final.namesFile := by
  induction operations generalizing checkpoints state with
  | nil =>
      rw [List.foldlM_nil, except_pure_eq_ok] at hrun
      exact hrun ▸ h
  | cons operation operations ih =>
      rw [List.foldlM_cons, except_bind_eq_ok] at hrun
      rcases hrun with ⟨next, hstep, hrest⟩
      rcases NamesOperation.run_spec hsnapshots h hstep with ⟨hnext, hfile⟩
      exact ih hnext hfile hrest

/-- A repository without a names file. -/
theorem runs_file {snapshots : SnapshotId → Option String} {operations : List NamesOperation}
    {final : CheckpointNamesState}
    (hrun : operations.foldlM (NamesOperation.run json)
      { snapshots := snapshots, namesFile := none } = .ok final) :
    NamesFile json (operations.foldl NamesOperation.define
      { snapshots := snapshots, names := ∅ }).names final.namesFile := by
  have hempty : NamesFile json ∅ none :=
    ⟨fun checkpointId name h => absurd h (by simp), Or.inr ⟨rfl, rfl⟩⟩
  have hstart : ({ snapshots := snapshots, namesFile := none } : CheckpointNamesState).snapshots =
      ({ snapshots := snapshots, names := ∅ } : NamedCheckpoints).snapshots := rfl
  exact runs_spec hstart hempty hrun

/-- After a run the names read back as the map that its operations define, without a warning,
exactly when the text of that map is within the reader's limit. -/
theorem checkpointNames_readBack_iff (json : NamesJson) {snapshots : SnapshotId → Option String}
    {operations : List NamesOperation} {final : CheckpointNamesState}
    (hrun : operations.foldlM (NamesOperation.run json)
      { snapshots := snapshots, namesFile := none } = .ok final) :
    readCheckpointNameOverrides json final.namesFile =
        ((operations.foldl NamesOperation.define { snapshots := snapshots, names := ∅ }).names, []) ↔
      (json.toVec (operations.foldl NamesOperation.define
        { snapshots := snapshots, names := ∅ }).names).length ≤ maxCheckpointNamesFileBytes := by
  have hfile := runs_file hrun
  rcases hfile.read with ⟨hshort, hread⟩ | ⟨hlong, hwarnings⟩
  · apply iff_of_true hread
    rcases hshort with hnone | hle
    · rcases hfile.file with hsome | ⟨-, hnames⟩
      · exact absurd (hnone.symm.trans hsome) (by simp)
      · rw [hnames, json.toVec_empty]
        decide
    · exact hle
  · apply iff_of_false
    · intro hread
      exact hwarnings (by rw [hread])
    · exact Nat.not_le.mpr hlong

end Names

end CheckPo
