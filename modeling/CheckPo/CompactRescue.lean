/-
A reader of compact rescue records, and a rescue of so many files that its record cannot be
read back.
-/
import CheckPo.BeforeStateChecks
import CheckPo.GrowingInventory
import CheckPo.LongPaths
import CheckPo.RescueRecord

namespace CheckPo

/-! Reading. -/

def stringMember (name : String) (members : List (String × JsonValue)) : Option String :=
  match members.lookup name with
  | some (.string text) => some text
  | _ => none

def numberMember (name : String) (members : List (String × JsonValue)) : Option Nat :=
  match members.lookup name with
  | some (.number value) => some value
  | _ => none

def flagMember (name : String) (members : List (String × JsonValue)) : Option Bool :=
  match members.lookup name with
  | some (.bool value) => some value
  | _ => none

def arrayMember (name : String) (members : List (String × JsonValue)) : Option (List JsonValue) :=
  match members.lookup name with
  | some (.array items) => some items
  | _ => none

def conflictOfJson : JsonValue → Option TransactionRecoveryConflict
  | .object members => do
      return {
        path := ← (TrackedUnityFilePath.parse (← stringMember "path" members)).toOption
        currentHash := ← (parseLowerHexId "object" (← stringMember "currentHash" members)).toOption
        sizeBytes := ← numberMember "sizeBytes" members
        modifiedAtUtc := ← stringMember "modifiedAtUtc" members
        metadataOnly := ← flagMember "metadataOnly" members }
  | _ => none

def rescueEntryOfJson : JsonValue → Option RecoveryRescueEntry
  | .object members => do
      return {
        conflict := ← conflictOfJson (← members.lookup "conflict")
        exported := ← flagMember "exported" members }
  | _ => none

def rescueStateOfText : String → Option RecoveryRescueState
  | "prepared" => some .prepared
  | "resolving" => some .resolving
  | "recovered" => some .recovered
  | _ => none

def pathOfJson : JsonValue → Option TrackedUnityFilePath
  | .string text => (TrackedUnityFilePath.parse text).toOption
  | _ => none

def rescueRecordOfJson : JsonValue → Option RecoveryRescueRecord
  | .object members => do
      return {
        schemaVersion := ← numberMember "schemaVersion" members
        transactionId := ← stringMember "transactionId" members
        checkpointId :=
          ← (parseLowerHexId "snapshot" (← stringMember "checkpointId" members)).toOption
        planId := ← stringMember "planId" members
        createdAtUtc := ← stringMember "createdAtUtc" members
        state := ← rescueStateOfText (← stringMember "state" members)
        exportDirectory := stringMember "exportDirectory" members
        entries := ← (← arrayMember "entries" members).mapM rescueEntryOfJson
        completedPaths := ← (← arrayMember "completedPaths" members).mapM pathOfJson }
  | _ => none

def rescueFromSlice (bytes : Bytes) : Except String RecoveryRescueRecord :=
  match (fromUtf8 bytes).bind fun text => (JsonValue.parse text.toList).bind rescueRecordOfJson with
  | some record => .ok record
  | none => .error "expected value"

theorem parse_text_toOption (path : TrackedUnityFilePath) :
    (TrackedUnityFilePath.parse path.text).toOption = some path := by
  rw [path.parse_text]
  rfl

theorem toHex_toOption (label : String) (id : Digest32) :
    (parseLowerHexId label id.toHex).toOption = some id := by
  rw [parseLowerHexId_toHex]
  rfl

theorem mapM_of_forall {α β : Type} {encode : α → β} {decode : β → Option α}
    (h : ∀ value, decode (encode value) = some value) (values : List α) :
    values.mapM (decode ∘ encode) = some values := by
  induction values with
  | nil => rfl
  | cons value values ih =>
      rw [List.mapM_cons, ih, Function.comp_apply, h]
      rfl

theorem conflictOfJson_toJson (conflict : TransactionRecoveryConflict) :
    conflictOfJson conflict.toJson = some conflict := by
  simp [conflictOfJson, TransactionRecoveryConflict.toJson, stringMember, numberMember, flagMember,
    List.lookup, parse_text_toOption, toHex_toOption]

theorem rescueEntryOfJson_toJson (entry : RecoveryRescueEntry) :
    rescueEntryOfJson entry.toJson = some entry := by
  simp [rescueEntryOfJson, RecoveryRescueEntry.toJson, flagMember, List.lookup,
    conflictOfJson_toJson]

theorem rescueRecordOfJson_toJson (record : RecoveryRescueRecord) :
    rescueRecordOfJson record.toJson = some record := by
  rcases record with ⟨schemaVersion, transactionId, checkpointId, planId, createdAtUtc, state,
    exportDirectory, entries, completedPaths⟩
  have hentries := mapM_of_forall rescueEntryOfJson_toJson entries
  have hpath : ∀ path : TrackedUnityFilePath, pathOfJson (.string path.text) = some path :=
    parse_text_toOption
  have hpaths := mapM_of_forall hpath completedPaths
  cases exportDirectory <;> cases state <;>
    simp [rescueRecordOfJson, RecoveryRescueRecord.toJson, RecoveryRescueState.toJson,
      rescueStateOfText, stringMember, numberMember, arrayMember, List.lookup, toHex_toOption,
      hentries, hpaths]

theorem rescueFromSlice_toVec (record : RecoveryRescueRecord) :
    rescueFromSlice (jsonBytes record.toJson) = .ok record := by
  simp only [rescueFromSlice, jsonBytes, fromUtf8_utf8, Option.bind_some, String.toList_ofList,
    JsonValue.parse_compact, rescueRecordOfJson_toJson]

/-- Compact JSON reads a record as `serde_json` does. -/
def compactRescueReader : RescueReader :=
  ⟨rescueFromSlice, fun record _ => rescueFromSlice_toVec record⟩

namespace Sample

/-! Assets that are named by ids. -/

def idAssetText (id : Digest32) : String := "Assets/" ++ id.toHex

theorem toList_idAssetText (id : Digest32) :
    (idAssetText id).toList = assets ++ '/' :: id.toHex.toList := by
  rw [idAssetText, String.toList_append]
  rfl

/-- A character that is allowed anywhere in a name. -/
def SafeCharacter (character : Char) : Prop :=
  character ≠ '/' ∧ character ≠ '.' ∧ character ≠ ' ' ∧ character ≠ '\\' ∧ character ≠ ':' ∧
    isWindowsForbiddenCharacter character = false

theorem toHex_safe (id : Digest32) {character : Char} (h : character ∈ id.toHex.toList) :
    SafeCharacter character := by
  apply forall_toHex _ id h
  simp only [SafeCharacter]
  decide

theorem checkSegment_toHex (input : String) (id : Digest32) :
    checkSegment input id.toHex.toList = .ok () := by
  have hlength := length_toHex id
  have hnil : id.toHex.toList ≠ [] := by
    rw [← List.length_pos_iff_ne_nil, hlength]
    decide
  have hlast : ∀ character, id.toHex.toList.getLast? = some character → SafeCharacter character :=
    fun character hcharacter => toHex_safe id (List.mem_of_getLast? hcharacter)
  have hforbidden : id.toHex.toList.any isWindowsForbiddenCharacter = false := by
    rw [List.any_eq_false]
    intro character hcharacter
    rw [(toHex_safe id hcharacter).2.2.2.2.2]
    exact Bool.false_ne_true
  have hreserved : isWindowsReservedName id.toHex.toList = false := by
    have hwhole : id.toHex.toList.takeWhile (· ≠ '.') = id.toHex.toList := by
      rw [List.takeWhile_eq_self_iff]
      intro character hcharacter
      exact decide_eq_true (toHex_safe id hcharacter).2.1
    have hupper : (id.toHex.toList.map asciiUpper).length = 64 := by rw [List.length_map, hlength]
    have hne : ∀ name : List Char, name.length < 61 →
        (id.toHex.toList.map asciiUpper == name) = false := by
      intro name hname
      rw [beq_eq_false_iff_ne]
      rintro rfl
      omega
    have hdrop : ∀ name : List Char, name.length < 61 →
        ((id.toHex.toList.map asciiUpper).drop 3 == name) = false := by
      intro name hname
      rw [beq_eq_false_iff_ne]
      rintro rfl
      rw [List.length_drop] at hname
      omega
    rw [isWindowsReservedName, hwhole]
    simp [isReservedDeviceDigit, hne, hdrop]
  rw [checkSegment, if_neg hnil, if_neg, if_neg, hforbidden, hreserved]
  · rfl
  · rintro (hspace | hdot)
    · exact (hlast _ hspace).2.2.1 rfl
    · exact (hlast _ hdot).2.1 rfl
  · rintro (hdot | hdots)
    · rw [hdot] at hlength
      exact absurd hlength (by decide)
    · rw [hdots] at hlength
      exact absurd hlength (by decide)

theorem splitOn_idAssetText (id : Digest32) :
    (idAssetText id).toList.splitOn '/' = [assets, id.toHex.toList] := by
  have hassets : ∀ character ∈ assets, (character == '/') = false := by
    intro character hcharacter
    rw [beq_eq_false_iff_ne]
    rintro rfl
    exact absurd hcharacter (by decide +kernel)
  have hid : ∀ character ∈ id.toHex.toList, (character == '/') = false := by
    intro character hcharacter
    rw [beq_eq_false_iff_ne]
    exact (toHex_safe id hcharacter).1
  rw [toList_idAssetText, List.splitOn,
    List.splitOnP_append_cons_of_forall_mem hassets '/' (beq_self_eq_true _),
    List.splitOnP_eq_singleton hid]

theorem checkTrackedPath_idAssetText (id : Digest32) :
    checkTrackedPath (idAssetText id) = .ok () := by
  have habsent : ∀ character, character ∉ assets → character ≠ '/' →
      ¬ SafeCharacter character → (assets ++ '/' :: id.toHex.toList).contains character = false := by
    intro character hassets hslash hunsafe
    rw [List.contains_eq_mem, decide_eq_false_iff_not, List.mem_append, List.mem_cons]
    rintro (hmem | heq | hmem)
    · exact hassets hmem
    · exact hslash heq
    · exact hunsafe (toHex_safe id hmem)
  have hbackslash := habsent '\\' (by decide) (by decide) fun h => h.2.2.2.1 rfl
  have hcolon := habsent ':' (by decide) (by decide) fun h => h.2.2.2.2.1 rfl
  have hhead : ¬ (assets ++ '/' :: id.toHex.toList).head? = some '/' := by
    rw [assets, List.cons_append, List.head?_cons]
    decide
  have hassets : checkSegment (idAssetText id) assets = .ok () := by
    have hlast : ¬ (assets.getLast? = some ' ' ∨ assets.getLast? = some '.') := by decide +kernel
    have hforbidden : assets.any isWindowsForbiddenCharacter = false := by decide +kernel
    have hreserved : isWindowsReservedName assets = false := by decide +kernel
    simp only [checkSegment, hforbidden, hreserved, if_neg hlast]
    rfl
  have hscope : (["Assets", "Packages", "ProjectSettings"].all fun root =>
      some assets != some root.toList) = false := by decide +kernel
  have hsegments : [assets, id.toHex.toList].forM (checkSegment (idAssetText id)) = .ok () := by
    rw [forM_eq_ok_iff, List.forall_mem_cons, List.forall_mem_singleton]
    exact ⟨hassets, checkSegment_toHex _ id⟩
  rw [checkTrackedPath, splitOn_idAssetText, toList_idAssetText, hbackslash, hcolon, if_neg hhead,
    List.head?_cons, hscope, hsegments]
  rfl

def idAsset (id : Digest32) : TrackedUnityFilePath := ⟨idAssetText id, checkTrackedPath_idAssetText id⟩

theorem idAsset_injective {left right : Digest32} (h : idAsset left = idAsset right) :
    left = right := by
  have htext : (idAssetText left).toList = (idAssetText right).toList :=
    congrArg (fun path : TrackedUnityFilePath => path.text.toList) h
  rw [toList_idAssetText, toList_idAssetText] at htext
  have hrest := (List.cons.inj (List.append_cancel_left htext)).2
  exact toHex_injective (String.toList_inj.mp hrest)

theorem segments_idAsset (id : Digest32) : (idAsset id).segments = ["Assets", id.toHex] := by
  rw [TrackedUnityFilePath.segments, show (idAsset id).text = idAssetText id from rfl,
    splitOn_idAssetText, List.map_cons, List.map_cons, List.map_nil, String.ofList_toList]
  rfl

theorem quotedBytes_idAsset (id : Digest32) : quotedBytes (idAsset id).text = 73 := by
  have hplain : ∀ character ∈ (idAssetText id).toList, PlainJson character := by
    have hfixed : ∀ character ∈ assets ++ ['/'], PlainJson character := by
      simp only [assets, List.cons_append, List.nil_append, List.forall_mem_cons]
      exact ⟨⟨rfl, rfl⟩, ⟨rfl, rfl⟩, ⟨rfl, rfl⟩, ⟨rfl, rfl⟩, ⟨rfl, rfl⟩, ⟨rfl, rfl⟩, ⟨rfl, rfl⟩,
        List.forall_mem_nil _⟩
    intro character hcharacter
    rw [toList_idAssetText, ← List.singleton_append, ← List.append_assoc, List.mem_append]
      at hcharacter
    exact hcharacter.elim (hfixed character) (toHex_plainJson id)
  rw [quotedBytes, show (idAsset id).text = idAssetText id from rfl, utf8Length_quoted hplain,
    toList_idAssetText, List.length_append, List.length_cons, length_toHex]
  rfl

/-! A crowd of conflicts. -/

def crowdPaths (count : Nat) : List TrackedUnityFilePath :=
  ((Finset.range count).image fun index => idAsset (fullId index)).sort (· ≤ ·)

theorem mem_crowdPaths {count : Nat} {path : TrackedUnityFilePath} (h : path ∈ crowdPaths count) :
    ∃ index, path = idAsset (fullId index) := by
  rw [crowdPaths, Finset.mem_sort, Finset.mem_image] at h
  rcases h with ⟨index, -, rfl⟩
  exact ⟨index, rfl⟩

theorem length_crowdPaths {count : Nat} (h : count ≤ 2 ^ 32) : (crowdPaths count).length = count := by
  rw [crowdPaths, Finset.length_sort, Finset.card_image_of_injOn, Finset.card_range]
  intro left hleft right hright heq
  have hleft := Finset.mem_range.mp (Finset.mem_coe.mp hleft)
  have hright := Finset.mem_range.mp (Finset.mem_coe.mp hright)
  exact fullId_injective (hleft.trans_le h) (hright.trans_le h) (idAsset_injective heq)

def crowdFiles (count : Nat) : FileTree ProjectFile where
  entry path :=
    if path = [] ∨ path = ["Assets"] then some .directory
    else if path ∈ (crowdPaths count).map TrackedUnityFilePath.segments then
      some (.file ⟨[], ⟨0, 0⟩⟩)
    else none
  paths := {[], ["Assets"]} ∪ ((crowdPaths count).map TrackedUnityFilePath.segments).toFinset
  mem_paths path := by
    rw [Finset.mem_union, Finset.mem_insert, Finset.mem_singleton, List.mem_toFinset]
    split_ifs <;> simp_all

theorem crowdFiles_entry {count : Nat} {path : TrackedUnityFilePath} (h : path ∈ crowdPaths count) :
    (crowdFiles count).entry path.segments = some (.file ⟨[], ⟨0, 0⟩⟩) := by
  have hlength := path.two_le_length_segments
  have hdirectory : ¬ (path.segments = [] ∨ path.segments = ["Assets"]) := by
    rintro (heq | heq) <;> rw [heq] at hlength <;> exact absurd hlength (by decide)
  exact (if_neg hdirectory).trans (if_pos (List.mem_map_of_mem h))

theorem crowdFiles_directory (count : Nat) {path : Path} (h : path = [] ∨ path = ["Assets"]) :
    (crowdFiles count).entry path = some .directory := if_pos h

theorem crowdFiles_paths {count : Nat} {path : Path} (h : path ∈ (crowdFiles count).paths) :
    path = [] ∨ path = ["Assets"] ∨ ∃ file ∈ crowdPaths count, path = file.segments := by
  simp only [crowdFiles, Finset.mem_union, Finset.mem_insert, Finset.mem_singleton,
    List.mem_toFinset, List.mem_map] at h
  rcases h with (h | h) | ⟨file, hfile, h⟩
  · exact Or.inl h
  · exact Or.inr (Or.inl h)
  · exact Or.inr (Or.inr ⟨file, hfile, h.symm⟩)

def crowdTree (count : Nat) : WorkingTree :=
  .exact "project" (crowdFiles count) (crowdFiles_directory count (Or.inl rfl))
    (by
      intro path hpath hne
      rcases crowdFiles_paths hpath with rfl | rfl | ⟨file, hfile, rfl⟩
      · exact absurd rfl hne
      · exact crowdFiles_directory count (Or.inl rfl)
      · rcases mem_crowdPaths hfile with ⟨index, rfl⟩
        rw [segments_idAsset]
        exact crowdFiles_directory count (Or.inr rfl))
    (by
      intro path hpath name hname
      rcases crowdFiles_paths hpath with rfl | rfl | ⟨file, hfile, rfl⟩
      · exact absurd hname List.not_mem_nil
      · rw [List.mem_singleton.mp hname]
        decide
      · exact TrackedUnityFilePath.plainName_of_mem_segments hname)

/-- A new time for a file, which has another one by now. -/
def crowdOperation (path : TrackedUnityFilePath) : FileOperation :=
  { operationType := .setMetadata
    path := path
    beforeHash := some (lengthDigest [])
    beforeSizeBytes := some 0
    beforeModifiedAtUtc := some "1970-01-01T00:00:01Z"
    afterHash := some (lengthDigest [])
    afterSizeBytes := some 0
    afterModifiedAtUtc := some "1970-01-01T00:00:02Z" }

def crowdConflict (path : TrackedUnityFilePath) : TransactionRecoveryConflict :=
  { path := path
    currentHash := lengthDigest []
    sizeBytes := 0
    modifiedAtUtc := "1970-01-01T00:00:00Z"
    metadataOnly := true }

def crowdCheckpoint (count : Nat) : SnapshotFile :=
  { folderCheckpoint with
    files := (crowdPaths count).map fun path =>
      ⟨path, 0, "1970-01-01T00:00:02Z", .whole (lengthDigest []) 0⟩ }

def crowdJournal (count : Nat) : TransactionJournal :=
  { wayJournal with
    operations := (crowdPaths count).map crowdOperation
    directoriesToCreate := [] }

theorem fileAt_crowdCheckpoint {count : Nat} {path : TrackedUnityFilePath}
    (h : path ∈ crowdPaths count) :
    (crowdCheckpoint count).fileAt path =
      some ⟨path, 0, "1970-01-01T00:00:02Z", .whole (lengthDigest []) 0⟩ := by
  rcases hfile : (crowdCheckpoint count).fileAt path with _ | file
  · rw [SnapshotFile.fileAt, List.find?_eq_none] at hfile
    have hmem := List.mem_reverse.mpr (List.mem_map_of_mem (f := fun path =>
      SnapshotEntry.mk path 0 "1970-01-01T00:00:02Z" (.whole (lengthDigest []) 0)) h)
    exact absurd (beq_self_eq_true path) (hfile _ hmem)
  · rw [SnapshotFile.fileAt] at hfile
    have hpath : file.path = path := by simpa using List.find?_some hfile
    have hmem := List.mem_reverse.mp (List.mem_of_find?_eq_some hfile)
    rcases List.mem_map.mp hmem with ⟨other, -, rfl⟩
    rw [show other = path from hpath]

theorem crowdPaths_pairwise (count : Nat) : (crowdPaths count).Pairwise (· < ·) :=
  Finset.sortedLT_sort _ |>.pairwise

theorem crowdJournal_valid (count : Nat) :
    validateJournalOperations (fun _ => .ok (crowdCheckpoint count))
      (crowdJournal count).checkpointId (crowdJournal count).operations = .ok () := by
  have hpairwise : ((crowdPaths count).map crowdOperation).Pairwise fun left right =>
      left.path < right.path := List.pairwise_map.mpr (crowdPaths_pairwise count)
  have hsorted : sortOperations ((crowdPaths count).map crowdOperation) =
      (crowdPaths count).map crowdOperation :=
    List.mergeSort_of_pairwise (hpairwise.imp fun hlt => decide_eq_true hlt.le)
  have hchain : ((crowdPaths count).map crowdOperation).IsChain fun left right =>
      left.path ≠ right.path := (hpairwise.imp fun hlt => hlt.ne).isChain
  rw [validateJournalOperations, show (crowdJournal count).operations =
    (crowdPaths count).map crowdOperation from rfl, hsorted, if_neg (not_not.mpr rfl),
    if_neg (not_not.mpr hchain), except_bind_ok, forM_eq_ok_iff]
  intro operation hoperation
  rcases List.mem_map.mp hoperation with ⟨path, hpath, rfl⟩
  simp only [validateJournalOperation, crowdOperation, fileAt_crowdCheckpoint hpath]
  rfl

/-! The rescue of a crowd. -/

/-- What recovery sees of each file. -/
theorem recoveryState_crowd {count : Nat} {path : TrackedUnityFilePath}
    (beforePaths : Finset TrackedUnityFilePath) (h : path ∈ crowdPaths count) :
    currentFileStateForRecovery folderTime lengthDigest (crowdTree count) path beforePaths =
      .ok (some ⟨lengthDigest [], 0, "1970-01-01T00:00:00Z"⟩) := by
  have hlookup : (crowdTree count).lookup path.segments = some (.file ⟨[], ⟨0, 0⟩⟩) :=
    crowdFiles_entry h
  rw [recoveryState_file hlookup]
  rfl

theorem operationConflict_crowd {count : Nat} {path : TrackedUnityFilePath}
    (beforePaths : Finset TrackedUnityFilePath) (h : path ∈ crowdPaths count) :
    operationConflict folderTime lengthDigest (crowdTree count) beforePaths (crowdOperation path) =
      .ok (some (crowdConflict path)) := by
  rw [operationConflict, show (crowdOperation path).path = path from rfl,
    recoveryState_crowd beforePaths h]
  rfl

def crowdProject : ProjectId := ⟨List.replicate 16 0, length_zeroProject⟩

def crowdPlan (count : Nat) : TransactionRecoveryConflictPlan :=
  { schemaVersion := 1
    planId := recoveryConflictPlanId lengthDigest crowdProject (crowdJournal count).transactionId
      (crowdJournal count).checkpointId (lengthDigest []).toHex
      ((crowdPaths count).map crowdConflict)
    transactionId := (crowdJournal count).transactionId
    checkpointId := (crowdJournal count).checkpointId
    conflicts := (crowdPaths count).map crowdConflict }

theorem analyze_crowd (count : Nat) :
    analyzeTransactionRecoveryConflicts folderTime lengthDigest (crowdTree count) crowdProject
      (fun _ => []) (crowdJournal count) = .ok (crowdPlan count) := by
  have hfound : (crowdJournal count).operations.mapM (operationConflict folderTime lengthDigest
      (crowdTree count) (beforeFiles (crowdJournal count).operations)) =
        .ok ((crowdPaths count).map fun path => some (crowdConflict path)) := by
    rw [mapM_eq_ok_iff, crowdJournal, List.forall₂_map_left_iff, List.forall₂_map_right_iff,
      List.forall₂_same]
    exact fun path hpath => operationConflict_crowd _ hpath
  have hreduce : ((crowdPaths count).map fun path => some (crowdConflict path)).reduceOption =
      (crowdPaths count).map crowdConflict := by
    rw [List.reduceOption, List.filterMap_map]
    exact List.filterMap_eq_map' ▸ rfl
  have hsorted : ((crowdPaths count).map crowdConflict).mergeSort (fun left right =>
      decide (left.path ≤ right.path)) = (crowdPaths count).map crowdConflict := by
    apply List.mergeSort_of_pairwise
    rw [List.pairwise_map]
    exact (crowdPaths_pairwise count).imp fun hlt => decide_eq_true hlt.le
  simp only [analyzeTransactionRecoveryConflicts, hfound, except_bind_ok, hreduce, hsorted]
  rfl

theorem isLowerHex_toHex (id : Digest32) : isLowerHex id.toHex 64 = true := by
  have hdigits : id.toHex.toList.all (fun digit => (hexNibble digit).isSome) = true := by
    rw [List.all_eq_true]
    intro character hcharacter
    apply forall_toHex _ id hcharacter
    decide
  rw [isLowerHex, hdigits, length_toHex]
  rfl

/-- Nothing is copied for a change of a time. -/
theorem requiredRescueBytes_metadata {transactionId : String}
    {objects : ObjectId → Option (TreeEntry Bytes)} {conflicts : List TransactionRecoveryConflict}
    (h : ∀ conflict ∈ conflicts, conflict.metadataOnly = true) (seen : Finset ObjectId)
    (required : Nat) :
    requiredRescueBytes transactionId objects conflicts seen required = .ok required := by
  induction conflicts with
  | nil => rfl
  | cons conflict rest ih =>
      rw [requiredRescueBytes, if_pos (Or.inl (h conflict List.mem_cons_self))]
      exact ih fun other hother => h other (List.mem_cons_of_mem conflict hother)

theorem verify_crowd {count : Nat} (beforePaths : Finset TrackedUnityFilePath) :
    ∀ conflict ∈ (crowdPlan count).conflicts, verifyRecoveryConflictIsCurrent folderTime
      lengthDigest (crowdTree count) beforePaths conflict = .ok () := by
  intro conflict hconflict
  rcases List.mem_map.mp hconflict with ⟨path, hpath, rfl⟩
  rw [verifyRecoveryConflictIsCurrent, show (crowdConflict path).path = path from rfl,
    recoveryState_crowd beforePaths hpath]
  rfl

theorem preserveConflicts_metadata {canonicalUtc : Timestamp → String} {blake3 : Bytes → Digest32}
    {tree : WorkingTree} {beforePaths : Finset TrackedUnityFilePath}
    {plan : TransactionRecoveryConflictPlan}
    (hmetadata : ∀ conflict ∈ plan.conflicts, conflict.metadataOnly = true)
    (hcurrent : ∀ conflict ∈ plan.conflicts, verifyRecoveryConflictIsCurrent canonicalUtc blake3
      tree beforePaths conflict = .ok ()) (directory : RescueDirectory) :
    preserveConflicts canonicalUtc blake3 tree beforePaths plan directory = .ok directory := by
  rw [preserveConflicts]
  generalize plan.conflicts = conflicts at hmetadata hcurrent
  induction conflicts with
  | nil => rfl
  | cons conflict rest ih =>
      rw [List.foldlM_cons, hcurrent conflict List.mem_cons_self,
        if_pos (hmetadata conflict List.mem_cons_self)]
      exact ih (fun other hother => hmetadata other (List.mem_cons_of_mem conflict hother))
        fun other hother => hcurrent other (List.mem_cons_of_mem conflict hother)

/-- A rescue directory that there is nothing in. -/
def emptyRescue : RescueDirectory := ⟨fun _ => none, fun _ => none, none⟩

def crowdRecord (count : Nat) : RecoveryRescueRecord :=
  preparedRescueRecord (crowdPlan count) ∅ none "1970-01-01T00:00:00Z"

def crowdRescue (count : Nat) : RescueDirectory :=
  { objects := fun _ => none
    records := Function.update (fun _ => none) (crowdPlan count).planId
      (some (jsonBytes (crowdRecord count).toJson))
    active := some (.file (jsonBytes (crowdRecord count).toJson)) }

theorem prepare_crowd (count : Nat) :
    prepareRecoveryConflictRescue folderTime lengthDigest (crowdTree count) (fun _ => .ok ())
      (crowdJournal count) (crowdPlan count) ∅ none "1970-01-01T00:00:00Z" emptyRescue =
        .ok (crowdRescue count) := by
  have hmetadata : ∀ conflict ∈ (crowdPlan count).conflicts, conflict.metadataOnly = true := by
    intro conflict hconflict
    rcases List.mem_map.mp hconflict with ⟨path, -, rfl⟩
    rfl
  have hverified : (crowdPlan count).conflicts.forM (verifyRecoveryConflictIsCurrent folderTime
      lengthDigest (crowdTree count) (beforeFiles (crowdJournal count).operations)) = .ok () :=
    forM_eq_ok_iff.mpr (verify_crowd _)
  have htransaction : validateTransactionId (crowdPlan count).transactionId = .ok () := by
    change validateTransactionId wayJournal.transactionId = .ok ()
    decide +kernel
  have hplan : validateRecoveryConflictPlanId (crowdPlan count).planId = .ok () :=
    if_pos (isLowerHex_toHex _)
  have hidentity : ¬ ((crowdJournal count).transactionId ≠ (crowdPlan count).transactionId ∨
      (crowdJournal count).checkpointId ≠ (crowdPlan count).checkpointId) := by
    rintro (h | h) <;> exact h rfl
  rw [prepareRecoveryConflictRescue, if_neg hidentity, requiredRescueBytes_metadata hmetadata]
  simp only [except_bind_ok, hverified,
    preserveConflicts_metadata hmetadata (verify_crowd _),
    writeRecoveryRescueRecord, preparedRescueRecord, htransaction, hplan]
  rfl

theorem rescueRecordBytes_crowd {count : Nat} (h : count ≤ 2 ^ 32) :
    rescueRecordBytes (crowdPlan count) ∅ none "1970-01-01T00:00:00Z" =
      headerBytes (crowdPlan count) none "1970-01-01T00:00:00Z" + count * 267 := by
  have hconflict : ∀ path ∈ crowdPaths count,
      ((fun conflict => conflictBytes conflict (decide (conflict.path ∈
        (∅ : Finset TrackedUnityFilePath)))) ∘ crowdConflict) path = 267 := by
    intro path hpath
    rcases mem_crowdPaths hpath with ⟨index, rfl⟩
    have htime : quotedBytes "1970-01-01T00:00:00Z" = 22 := by decide +kernel
    have hsize : decimalBytes 0 = 1 := rfl
    simp only [Function.comp_apply, conflictBytes, crowdConflict, quotedBytes_idAsset, htime,
      hsize, flagBytes, Finset.notMem_empty, decide_false, Bool.false_eq_true, if_true, if_false]
  rw [rescueRecordBytes, show (crowdPlan count).conflicts = (crowdPaths count).map crowdConflict
    from rfl, List.map_map, List.map_congr_left hconflict, List.map_const', List.sum_replicate,
    length_crowdPaths h, smul_eq_mul]

/-- A rescue of 32768 files succeeds and leaves a record that cannot be read back. -/
theorem rescueRecord_readBack_fails :
    validateJournalOperations (fun _ => .ok (crowdCheckpoint 32768))
        (crowdJournal 32768).checkpointId (crowdJournal 32768).operations = .ok () ∧
      analyzeTransactionRecoveryConflicts folderTime lengthDigest (crowdTree 32768) crowdProject
        (fun _ => []) (crowdJournal 32768) = .ok (crowdPlan 32768) ∧
      (crowdPlan 32768).conflicts ≠ [] ∧
      prepareRecoveryConflictRescue folderTime lengthDigest (crowdTree 32768) (fun _ => .ok ())
        (crowdJournal 32768) (crowdPlan 32768) ∅ none "1970-01-01T00:00:00Z" emptyRescue =
          .ok (crowdRescue 32768) ∧
      readActiveRecoveryRescueRecord compactRescueReader (fun _ => true)
          (crowdPlan 32768).transactionId (crowdRescue 32768) ≠
        .ok (some (crowdRecord 32768)) := by
  have hne : (crowdPlan 32768).conflicts ≠ [] := by
    rw [← List.length_pos_iff_ne_nil, crowdPlan, List.length_map, length_crowdPaths (by decide)]
    decide
  refine ⟨crowdJournal_valid _, analyze_crowd _, hne, prepare_crowd _, ?_⟩
  intro hread
  have hlong : maxRecoveryRescueRecordBytes < (jsonBytes (crowdRecord 32768).toJson).length := by
    rw [crowdRecord, length_preparedRescueRecord _ _ _ _ hne, rescueRecordBytes_crowd (by decide),
      maxRecoveryRescueRecordBytes]
    omega
  simp only [readActiveRecoveryRescueRecord, crowdRescue, readBytesBounded, if_pos hlong,
    except_bind_error] at hread
  cases hread

end Sample

/-- The condition at one file, which a rescue has no difficulty with. -/
theorem rescueRecord_readBack_iff_one :
    readActiveRecoveryRescueRecord compactRescueReader (fun _ => true)
        (Sample.crowdPlan 1).transactionId (Sample.crowdRescue 1) =
        .ok (some (preparedRescueRecord (Sample.crowdPlan 1) ∅ none "1970-01-01T00:00:00Z")) ↔
      rescueRecordBytes (Sample.crowdPlan 1) ∅ none "1970-01-01T00:00:00Z" ≤
        maxRecoveryRescueRecordBytes := by
  have hne : (Sample.crowdPlan 1).conflicts ≠ [] := by
    rw [← List.length_pos_iff_ne_nil, Sample.crowdPlan, List.length_map,
      Sample.length_crowdPaths (by decide)]
    decide
  have hsizes : ∀ conflict ∈ (Sample.crowdPlan 1).conflicts, conflict.sizeBytes < 2 ^ 64 := by
    intro conflict hconflict
    rcases List.mem_map.mp hconflict with ⟨path, -, rfl⟩
    exact Nat.two_pow_pos 64
  exact rescueRecord_readBack_iff compactRescueReader (Sample.crowdJournal_valid 1)
    (Sample.analyze_crowd 1) hne hsizes nofun (Sample.prepare_crowd 1)

end CheckPo
