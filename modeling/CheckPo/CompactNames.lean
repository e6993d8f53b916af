/-
The names file as compact JSON: what is written parses back, and how long the text is.
-/
import CheckPo.CheckpointNameRuns
import CheckPo.GrowingInventory
import CheckPo.JsonLengths
import CheckPo.LongPaths

namespace CheckPo

/-! Texts. -/

/-- The members of a names file: ids and their names. -/
def nameMembers (names : NameMap) : List (String × JsonValue) :=
  names.toList.map fun entry => (entry.1, .string entry.2)

def jsonAsStr : JsonValue → Option String
  | .string text => some text
  | _ => none

/-- A later member replaces an earlier one of its name. -/
def namesValueOf : JsonValue → NamesValue
  | .object members => .object
      (members.foldl (fun map member => map.insert member.1 (jsonAsStr member.2)) ∅)
  | _ => .other

def namesText (names : NameMap) : List Char := (JsonValue.object (nameMembers names)).compact

def namesFromSlice (bytes : Bytes) : Except String NamesValue :=
  match fromUtf8 bytes with
  | none => .error "invalid unicode code point"
  | some text => match JsonValue.parse text.toList with
    | none => .error "expected value"
    | some value => .ok (namesValueOf value)

theorem namesFromSlice_namesText (names : NameMap) :
    namesFromSlice (utf8 (String.ofList (namesText names))) =
      .ok (.object (names.map fun _ => some)) := by
  have hmembers : (nameMembers names).foldl
      (fun (map : Std.ExtTreeMap String (Option String) compare) member =>
        map.insert member.1 (jsonAsStr member.2)) ∅ = names.map fun _ => some := by
    rw [← foldl_insert_toList (names.map fun _ => some), Std.ExtTreeMap.toList_map, nameMembers,
      List.foldl_map, List.foldl_map]
    rfl
  simp only [namesFromSlice, fromUtf8_utf8, String.toList_ofList, namesText,
    JsonValue.parse_compact, namesValueOf, hmembers]

/-- Compact JSON writes and reads names as `serde_json` does. -/
def compactNamesJson : NamesJson where
  toVec names := utf8 (String.ofList (namesText names))
  fromSlice := namesFromSlice
  fromSlice_toVec := namesFromSlice_namesText
  toVec_empty := by
    have hempty : nameMembers ∅ = [] := by
      rw [nameMembers, Std.ExtTreeMap.toList_eq_nil_iff.mpr (by rfl), List.map_nil]
    rw [namesText, hempty]
    rfl

theorem length_toVec {names : NameMap} {size : Nat} (hne : names.size ≠ 0)
    (h : ∀ checkpointId name, names[checkpointId]? = some name →
      utf8Length (memberText (checkpointId, .string name)) = size) :
    (compactNamesJson.toVec names).length = names.size * (size + 1) + 1 := by
  have hlength : (nameMembers names).length = names.size := by
    rw [nameMembers, List.length_map, Std.ExtTreeMap.length_toList]
  have hmembers : nameMembers names ≠ [] := by
    rw [← List.length_pos_iff_ne_nil, hlength]
    exact Nat.pos_of_ne_zero hne
  have hvec : (compactNamesJson.toVec names).length =
      utf8Length (JsonValue.object (nameMembers names)).compact :=
    congrArg List.length (utf8_ofList _)
  rw [hvec, ← hlength]
  apply utf8Length_object hmembers
  intro member hmember
  rcases List.mem_map.mp hmember with ⟨entry, hentry, rfl⟩
  exact h entry.1 entry.2 (Std.ExtTreeMap.mem_toList_iff_getElem?_eq_some.mp hentry)

namespace Sample

/-! Long names. -/

/-- A name of the greatest length. -/
def longName : String := String.ofList (List.replicate maxCheckpointNameBytes 'a')

theorem toList_longName : longName.toList = List.replicate maxCheckpointNameBytes 'a' :=
  String.toList_ofList

theorem length_utf8_longName : (utf8 longName).length = maxCheckpointNameBytes := by
  rw [longName, utf8_ofList, flatMap_replicate_encode, List.length_replicate]

theorem dropWhile_replicate (count : Nat) :
    (List.replicate count 'a').dropWhile isWhiteSpace = List.replicate count 'a' := by
  rcases count with _ | count
  · rfl
  · rw [List.replicate_succ]
    exact List.dropWhile_cons_of_neg (by decide)

theorem trim_longName : trim longName = longName := by
  rw [trim, toList_longName, dropWhile_replicate, List.reverse_replicate, dropWhile_replicate,
    List.reverse_replicate, longName]

theorem longName_ne {name : String} (h : name.toList.length ≠ maxCheckpointNameBytes) :
    longName ≠ name := by
  rintro rfl
  rw [toList_longName, List.length_replicate] at h
  exact h rfl

/-- Long names of the first checkpoints. -/
def longNames : Nat → NameMap
  | 0 => ∅
  | count + 1 => (longNames count).insert (fullId count).toHex longName

theorem entry_longNames {count : Nat} {checkpointId name : String}
    (h : (longNames count)[checkpointId]? = some name) :
    name = longName ∧ ∃ index, index < count ∧ checkpointId = (fullId index).toHex := by
  induction count with
  | zero => exact absurd h (by simp [longNames])
  | succ count ih =>
      rw [longNames, Std.ExtTreeMap.getElem?_insert] at h
      split at h
      · next hkey =>
          rw [Option.some.injEq] at h
          exact ⟨h.symm, count, Nat.lt_succ_self count, (Std.LawfulEqCmp.eq_of_compare hkey).symm⟩
      · rcases ih h with ⟨hname, index, hindex, hid⟩
        exact ⟨hname, index, Nat.lt_succ_of_lt hindex, hid⟩

theorem size_longNames {count : Nat} (h : count ≤ 2 ^ 32) : (longNames count).size = count := by
  induction count with
  | zero => rfl
  | succ count ih =>
      have hnotMem : (fullId count).toHex ∉ longNames count := by
        rw [Std.ExtTreeMap.mem_iff_isSome_getElem?]
        intro hsome
        rcases Option.isSome_iff_exists.mp hsome with ⟨name, hname⟩
        rcases entry_longNames hname with ⟨-, index, hindex, hid⟩
        have hsame := fullId_injective h (by omega) (toHex_injective hid)
        omega
      rw [longNames, Std.ExtTreeMap.size_insert, ih (Nat.le_of_succ_le h),
        if_neg (mt Std.ExtTreeMap.contains_iff_mem.mp hnotMem)]

theorem length_longNames {count : Nat} (hne : count ≠ 0) (h : count ≤ 2 ^ 32) :
    (compactNamesJson.toVec (longNames count)).length = count * 4166 + 1 := by
  have hsize := size_longNames h
  have hvec := @length_toVec (longNames count) 4165 (by rwa [hsize]) ?_
  · rw [hvec, hsize]
  · intro checkpointId name hname
    rcases entry_longNames hname with ⟨rfl, index, -, rfl⟩
    have hplain : ∀ character ∈ longName.toList, PlainJson character := by
      intro character hcharacter
      rw [toList_longName] at hcharacter
      rw [List.eq_of_mem_replicate hcharacter]
      exact ⟨rfl, rfl⟩
    rw [memberText, JsonValue.compact, utf8Length_append, utf8Length_cons,
      utf8Length_quoted fun _ => toHex_plainJson _, utf8Length_quoted hplain, length_toHex,
      toList_longName, List.length_replicate]
    rfl

/-! A run of renames. -/

def renamedSnapshots (id : SnapshotId) : Option String :=
  if id ∈ idsUpTo 4028 then some "first" else none

def longRenames (count : Nat) : List NamesOperation :=
  (List.range count).map fun index => .rename (fullId index).toHex longName

theorem renamedSnapshots_fullId {index : Nat} (h : index < 4028) :
    renamedSnapshots (fullId index) = some "first" :=
  if_pos (Finset.mem_image_of_mem fullId (Finset.mem_range.mpr h))

theorem define_longRenames {count : Nat} (h : count ≤ 4028) :
    (longRenames count).foldl NamesOperation.define
      { snapshots := renamedSnapshots, names := ∅ } =
      { snapshots := renamedSnapshots, names := longNames count } := by
  induction count with
  | zero => rfl
  | succ count ih =>
      have hne : ¬ some "first" = some longName := by
        rw [Option.some.injEq]
        exact (longName_ne (by decide)).symm
      rw [longRenames, List.range_succ, List.map_append, List.foldl_append, ← longRenames,
        ih (Nat.le_of_succ_le h)]
      simp only [List.map_cons, List.map_nil, List.foldl_cons, List.foldl_nil,
        NamesOperation.define, parseLowerHexId_toHex, renamedSnapshots_fullId h, trim_longName,
        if_neg hne, longNames]

/-- A rename to a new name while the file is within the limit. -/
theorem rename_eq_ok {json : NamesJson} {names : NameMap} {namesFile : Option Bytes}
    (snapshots : SnapshotId → Option String) {id : SnapshotId} {name snapshotName : String}
    (h : NamesFile json names namesFile)
    (hlength : (json.toVec names).length ≤ maxCheckpointNamesFileBytes)
    (hsnapshot : snapshots id = some snapshotName) (hvalid : ValidName id.toHex name)
    (hne : name ≠ snapshotName) :
    NamesOperation.run json { snapshots := snapshots, namesFile := namesFile }
        (.rename id.toHex name) =
      .ok { snapshots := snapshots
            namesFile := some (json.toVec (names.insert id.toHex name)) } := by
  rcases hvalid with ⟨-, htrim, hnonempty, hbytes⟩
  have hread : readCheckpointNameOverridesForMutation json namesFile = .ok names := by
    rcases h.read with ⟨-, heq⟩ | ⟨hlong, -⟩
    · rw [readCheckpointNameOverridesForMutation, heq]
      rfl
    · exact absurd hlong (Nat.not_lt.mpr hlength)
  simp only [NamesOperation.run, renameCheckpoint, htrim, if_neg hnonempty,
    if_neg (Nat.not_lt.mpr hbytes), parseLowerHexId_toHex, except_bind_ok, hsnapshot, hread,
    if_neg hne]
  rfl

theorem run_longRenames {count : Nat} (h : count ≤ 4028) :
    (longRenames count).foldlM (NamesOperation.run compactNamesJson)
      { snapshots := renamedSnapshots, namesFile := none } =
      .ok { snapshots := renamedSnapshots
            namesFile := if count = 0 then none
              else some (compactNamesJson.toVec (longNames count)) } := by
  induction count with
  | zero => rfl
  | succ count ih =>
      have hrun := ih (Nat.le_of_succ_le h)
      have hfile := runs_file hrun
      rw [define_longRenames (Nat.le_of_succ_le h)] at hfile
      have hlength : (compactNamesJson.toVec (longNames count)).length ≤
          maxCheckpointNamesFileBytes := by
        rcases Nat.eq_zero_or_pos count with rfl | hpos
        · have hlength := congrArg List.length compactNamesJson.toVec_empty
          exact hlength.le.trans (by decide)
        · rw [length_longNames hpos.ne' (by omega), maxCheckpointNamesFileBytes]
          omega
      have hvalid : ValidName (fullId count).toHex longName :=
        ⟨⟨_, rfl⟩, trim_longName, longName_ne (by decide), length_utf8_longName.le⟩
      rw [longRenames, List.range_succ, List.map_append, List.foldlM_append, ← longRenames, hrun,
        except_bind_ok]
      simp only [List.map_cons, List.map_nil, List.foldlM_cons, List.foldlM_nil]
      rw [rename_eq_ok renamedSnapshots hfile hlength (renamedSnapshots_fullId h) hvalid
        (longName_ne (by decide))]
      rfl

/-- One rename more than the reader's limit has room for. -/
theorem checkpointNames_readBack_fails :
    ∃ final, (longRenames 4028).foldlM (NamesOperation.run compactNamesJson)
        { snapshots := renamedSnapshots, namesFile := none } = .ok final ∧
      readCheckpointNameOverrides compactNamesJson final.namesFile ≠
        (((longRenames 4028).foldl NamesOperation.define
          { snapshots := renamedSnapshots, names := ∅ }).names, []) := by
  refine ⟨_, run_longRenames (le_refl _), ?_⟩
  intro hread
  have hlong : maxCheckpointNamesFileBytes <
      (compactNamesJson.toVec (longNames 4028)).length := by
    rw [length_longNames (by decide) (by decide)]
    decide
  have hwarnings := congrArg Prod.snd hread
  rw [if_neg (by decide), readCheckpointNameOverrides, readBytesBounded, if_pos hlong] at hwarnings
  exact List.cons_ne_nil _ _ hwarnings

/-- Two renames fit. -/
theorem checkpointNames_readBack_iff_two :
    readCheckpointNameOverrides compactNamesJson (some (compactNamesJson.toVec (longNames 2))) =
        (((longRenames 2).foldl NamesOperation.define
          { snapshots := renamedSnapshots, names := ∅ }).names, []) ↔
      (compactNamesJson.toVec ((longRenames 2).foldl NamesOperation.define
        { snapshots := renamedSnapshots, names := ∅ }).names).length ≤
        maxCheckpointNamesFileBytes := by
  have hle : 2 ≤ 4028 := by omega
  have hrun := run_longRenames hle
  rw [if_neg (by decide)] at hrun
  have hiff := checkpointNames_readBack_iff compactNamesJson hrun
  exact hiff

end Sample

end CheckPo
