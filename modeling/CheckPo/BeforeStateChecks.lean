/-
When the two checks of the state before a transaction agree: how each of them reads a path
of the project, from what stands at the path.
-/
import CheckPo.DiscardPreview
import CheckPo.TransactionJournal

namespace CheckPo

namespace WorkingTree

/-- Regular files and directories only. -/
def OnlyRegular (tree : WorkingTree) : Prop :=
  ∀ path entry, tree.lookup path = some entry → entry = .directory ∨ ∃ file, entry = .file file

/-- A name on the way is not there. -/
def Missing (tree : WorkingTree) (path : Path) : Prop :=
  ∃ base name rest, path = base ++ name :: rest ∧ tree.lookup base = some .directory ∧
    tree.lookup (base ++ [name]) = none

/-- A file stands on the way. -/
def BelowFile (tree : WorkingTree) (path : Path) : Prop :=
  ∃ base rest file, rest ≠ [] ∧ path = base ++ rest ∧ tree.lookup base = some (.file file)

variable {tree : WorkingTree} {path : Path}

theorem Missing.lookup (h : tree.Missing path) : tree.lookup path = none := by
  rcases h with ⟨base, name, rest, rfl, -, hname⟩
  rcases rest with _ | ⟨next, others⟩
  · exact hname
  · rw [show base ++ name :: next :: others = (base ++ [name]) ++ next :: others by simp]
    apply not_below_of_ne_directory (List.cons_ne_nil _ _)
    rw [hname]
    exact nofun

theorem BelowFile.lookup (h : tree.BelowFile path) : tree.lookup path = none := by
  rcases h with ⟨base, rest, file, hrest, rfl, hfile⟩
  apply not_below_of_ne_directory hrest
  rw [hfile]
  exact nofun

/-- A path that leads to nothing leads out of a directory or through a file, not both. -/
theorem Missing.not_belowFile (h : tree.Missing path) : ¬ tree.BelowFile path := by
  rintro ⟨fileBase, fileRest, file, hfileRest, hsplit, hfile⟩
  rcases h with ⟨base, name, rest, rfl, hbase, hname⟩
  rcases List.append_eq_append_iff.mp hsplit with ⟨middle, hmiddle, hrest⟩ | ⟨middle, hmiddle, hrest⟩
  · -- the file stands below the directory, so the missing name is on the way to it
    rcases middle with _ | ⟨first, others⟩
    · rw [List.append_nil] at hmiddle
      rw [← hmiddle, hfile] at hbase
      cases hbase
    · rw [List.cons_append, List.cons.injEq] at hrest
      rcases hrest with ⟨rfl, -⟩
      rw [hmiddle, show base ++ name :: others = (base ++ [name]) ++ others by simp] at hfile
      rcases others with _ | ⟨second, others⟩
      · rw [List.append_nil, hname] at hfile
        cases hfile
      · have habove := directory_above (List.cons_ne_nil second others) (by rw [hfile]; exact nofun)
        rw [hname] at habove
        cases habove
  · -- the directory stands at or below the file
    rcases middle with _ | ⟨first, others⟩
    · rw [List.append_nil] at hmiddle
      rw [hmiddle, hfile] at hbase
      cases hbase
    · rw [hmiddle] at hbase
      have habove := directory_above (List.cons_ne_nil first others) (by rw [hbase]; exact nofun)
      rw [hfile] at habove
      cases habove

theorem standing_from (hregular : tree.OnlyRegular) :
    ∀ (rest done : Path), rest ≠ [] → tree.lookup done = some .directory →
      (∃ file, tree.lookup (done ++ rest) = some (.file file)) ∨
        tree.lookup (done ++ rest) = some .directory ∨
        tree.Missing (done ++ rest) ∨ tree.BelowFile (done ++ rest)
  | [], _, hrest, _ => absurd rfl hrest
  | name :: rest, done, _, hdone => by
      rcases hname : tree.lookup (done ++ [name]) with _ | entry
      · exact Or.inr (Or.inr (Or.inl ⟨done, name, rest, rfl, hdone, hname⟩))
      · have hnext : done ++ name :: rest = (done ++ [name]) ++ rest := by simp
        rw [hnext]
        rcases rest with _ | ⟨second, others⟩
        · rw [List.append_nil, hname]
          rcases hregular _ _ hname with rfl | ⟨file, rfl⟩
          · exact Or.inr (Or.inl rfl)
          · exact Or.inl ⟨file, rfl⟩
        · rcases hregular _ _ hname with rfl | ⟨file, rfl⟩
          · exact standing_from hregular (second :: others) (done ++ [name])
              (List.cons_ne_nil _ _) hname
          · exact Or.inr (Or.inr (Or.inr ⟨_, _, file, List.cons_ne_nil second others, rfl, hname⟩))

/-- What can stand at a path. -/
theorem standing (hregular : tree.OnlyRegular) (hpath : path ≠ []) :
    (∃ file, tree.lookup path = some (.file file)) ∨ tree.lookup path = some .directory ∨
      tree.Missing path ∨ tree.BelowFile path :=
  standing_from hregular path [] hpath tree.rooted

theorem Missing.symlinkMetadata (h : tree.Missing path) :
    tree.symlinkMetadata path = .error .notFound := by
  rcases h with ⟨base, name, rest, rfl, hbase, hname⟩
  exact resolveFrom_missing hbase hname

theorem BelowFile.symlinkMetadata (h : tree.BelowFile path) :
    tree.symlinkMetadata path = .error .notADirectory := by
  rcases h with ⟨base, rest, file, hrest, rfl, hfile⟩
  exact resolveFrom_belowFile hrest hfile

/-! Parents. -/

section Parents

variable {target : TrackedUnityFilePath}

theorem ensureParentFrom_append :
    ∀ (middle done : Path) (name : String) (rest : Path),
      tree.lookup (done ++ middle) = some .directory → tree.lookup done = some .directory →
      tree.ensureParentFrom target done (middle ++ name :: rest) =
        tree.ensureParentFrom target (done ++ middle) (name :: rest)
  | [], done, name, rest, _, _ => by rw [List.nil_append, List.append_nil]
  | first :: middle, done, name, rest, h, hdone => by
      have hnext : done ++ first :: middle = (done ++ [first]) ++ middle := by simp
      rw [hnext] at h ⊢
      have hfirst : tree.lookup (done ++ [first]) = some .directory := by
        rcases middle with _ | ⟨second, others⟩
        · rwa [List.append_nil] at h
        · exact directory_above (List.cons_ne_nil _ _) (by rw [h]; exact nofun)
      have hstep : tree.ensureParentFrom target done (first :: (middle ++ name :: rest)) =
          tree.ensureParentFrom target (done ++ [first]) (middle ++ name :: rest) := by
        rcases hrest : middle ++ name :: rest with _ | ⟨second, others⟩
        · exact absurd hrest (by simp)
        · rw [ensureParentFrom, symlinkMetadata_entry hfirst]
      rw [List.cons_append, hstep]
      exact ensureParentFrom_append middle (done ++ [first]) name rest h hfirst

theorem ensureParentFrom_root {base rest : Path} {name : String}
    (h : tree.lookup base = some .directory) :
    tree.ensureParentFrom target [] (base ++ name :: rest) =
      tree.ensureParentFrom target base (name :: rest) :=
  ensureParentFrom_append base [] name rest h tree.rooted

/-- Directories lead to what stands at a path. -/
theorem ensureParent_entry {entry : TreeEntry ProjectFile} (hpath : path ≠ [])
    (h : tree.lookup path = some entry) : tree.ensureParentFrom target [] path = .ok () := by
  rcases path.eq_nil_or_concat with rfl | ⟨front, leaf, rfl⟩
  · exact absurd rfl hpath
  · rw [List.concat_eq_append] at h ⊢
    have hfront : tree.lookup front = some .directory :=
      tree.parents front leaf (by rw [h]; exact nofun)
    rw [ensureParentFrom_root hfront]
    rfl

theorem Missing.ensureParent (h : tree.Missing path) :
    tree.ensureParentFrom target [] path = .ok () := by
  rcases h with ⟨base, name, rest, rfl, hbase, hname⟩
  rw [ensureParentFrom_root hbase]
  rcases rest with _ | ⟨next, others⟩
  · rfl
  · rw [ensureParentFrom, symlinkMetadata_name hbase, hname]
    rfl

theorem BelowFile.ensureParent (h : tree.BelowFile path) :
    ∃ error, tree.ensureParentFrom target [] path = .error error := by
  rcases h with ⟨base, rest, file, hrest, rfl, hfile⟩
  rcases base.eq_nil_or_concat with rfl | ⟨front, name, rfl⟩
  · rw [tree.rooted] at hfile
    cases hfile
  · rw [List.concat_eq_append] at hfile ⊢
    have hfront : tree.lookup front = some .directory :=
      tree.parents front name (by rw [hfile]; exact nofun)
    rcases rest with _ | ⟨next, others⟩
    · exact absurd rfl hrest
    · rw [List.append_assoc, List.singleton_append, ensureParentFrom_root hfront,
        ensureParentFrom, symlinkMetadata_entry hfile]
      exact ⟨_, rfl⟩

end Parents

end WorkingTree

/-! The two readings of an operation's path. -/

section Checks

variable {canonicalUtc : Timestamp → String} {blake3 : Bytes → Digest32} {tree : WorkingTree}
  {operations : List FileOperation} {operation : FileOperation}

/-- The path of the operation is as the operation found it. -/
def StandsAsBefore (canonicalUtc : Timestamp → String) (blake3 : Bytes → Digest32)
    (tree : WorkingTree) (operation : FileOperation) : Prop :=
  tree.Missing operation.path.segments ∧ inBeforeState operation none = true ∨
    ∃ file, tree.lookup operation.path.segments = some (.file file) ∧
      inBeforeState operation (some (WorkingTree.fileState canonicalUtc blake3 file)) = true

/-- The operation creates its file where a directory stands, or below a file that another
operation found. -/
def StandsInTheWay (tree : WorkingTree) (operations : List FileOperation)
    (operation : FileOperation) : Prop :=
  inBeforeState operation none = true ∧
    (tree.lookup operation.path.segments = some .directory ∨
      tree.BelowFile operation.path.segments ∧
        hasTrackedAncestor operation.path (beforeFiles operations) = true)

theorem not_standsInTheWay (h : StandsAsBefore canonicalUtc blake3 tree operation) :
    ¬ StandsInTheWay tree operations operation := by
  rintro ⟨-, hdirectory | ⟨hbelow, -⟩⟩
  · rcases h with ⟨hmissing, -⟩ | ⟨file, hfile, -⟩
    · rw [hmissing.lookup] at hdirectory
      cases hdirectory
    · rw [hfile] at hdirectory
      cases hdirectory
  · rcases h with ⟨hmissing, -⟩ | ⟨file, hfile, -⟩
    · exact hmissing.not_belowFile hbelow
    · rw [hbelow.lookup] at hfile
      cases hfile

section Read

variable {path : TrackedUnityFilePath}

theorem currentFileState_file {file : ProjectFile}
    (h : tree.lookup path.segments = some (.file file)) :
    tree.currentFileState canonicalUtc blake3 path =
      .ok (some (WorkingTree.fileState canonicalUtc blake3 file)) := by
  simp only [WorkingTree.currentFileState, WorkingTree.ensureProjectParentIsSafe,
    WorkingTree.ensureParent_entry path.segments_ne_nil h, except_bind_ok,
    WorkingTree.symlinkMetadata_entry h, WorkingTree.currentFileStateFromAnchor,
    WorkingTree.openFile_entry h]
  rfl

theorem currentFileState_missing (h : tree.Missing path.segments) :
    tree.currentFileState canonicalUtc blake3 path = .ok none := by
  simp only [WorkingTree.currentFileState, WorkingTree.ensureProjectParentIsSafe,
    h.ensureParent, except_bind_ok, h.symlinkMetadata]
  rfl

theorem currentFileState_directory (h : tree.lookup path.segments = some .directory) :
    tree.currentFileState canonicalUtc blake3 path = .error (.invalidTrackedPath path.text) := by
  simp only [WorkingTree.currentFileState, WorkingTree.ensureProjectParentIsSafe,
    WorkingTree.ensureParent_entry path.segments_ne_nil h, except_bind_ok,
    WorkingTree.symlinkMetadata_entry h]

theorem currentFileState_belowFile (h : tree.BelowFile path.segments) :
    ∃ error, tree.currentFileState canonicalUtc blake3 path = .error error := by
  rcases h.ensureParent with ⟨error, herror⟩
  rw [WorkingTree.currentFileState, WorkingTree.ensureProjectParentIsSafe, herror]
  exact ⟨error, rfl⟩

variable {beforePaths : Finset TrackedUnityFilePath}

theorem recoveryState_file {file : ProjectFile}
    (h : tree.lookup path.segments = some (.file file)) :
    currentFileStateForRecovery canonicalUtc blake3 tree path beforePaths =
      .ok (some (WorkingTree.fileState canonicalUtc blake3 file)) := by
  simp only [currentFileStateForRecovery, WorkingTree.symlinkMetadata_entry h,
    WorkingTree.currentFileStateFromAnchor, WorkingTree.openFile_entry h]
  rfl

theorem recoveryState_missing (h : tree.Missing path.segments) :
    currentFileStateForRecovery canonicalUtc blake3 tree path beforePaths = .ok none := by
  rw [currentFileStateForRecovery, h.symlinkMetadata]

theorem recoveryState_directory (h : tree.lookup path.segments = some .directory) :
    currentFileStateForRecovery canonicalUtc blake3 tree path beforePaths = .ok none := by
  rw [currentFileStateForRecovery, WorkingTree.symlinkMetadata_entry h]

theorem recoveryState_belowFile (h : tree.BelowFile path.segments)
    {current : Option CurrentFileState} :
    currentFileStateForRecovery canonicalUtc blake3 tree path beforePaths = .ok current ↔
      hasTrackedAncestor path beforePaths = true ∧ current = none := by
  rw [currentFileStateForRecovery, h.symlinkMetadata]
  simp only [true_and, except_ensure_eq_ok, Except.ok.injEq]
  exact and_congr_right fun _ => eq_comm

end Read

theorem currentFileState_matches_iff (hregular : tree.OnlyRegular) :
    (∃ current, tree.currentFileState canonicalUtc blake3 operation.path = .ok current ∧
        inBeforeState operation current = true) ↔
      StandsAsBefore canonicalUtc blake3 tree operation := by
  constructor
  · rintro ⟨current, hcurrent, hbefore⟩
    rcases WorkingTree.standing hregular operation.path.segments_ne_nil with
      ⟨file, hfile⟩ | hdirectory | hmissing | hbelow
    · rw [currentFileState_file hfile, Except.ok.injEq] at hcurrent
      exact Or.inr ⟨file, hfile, hcurrent ▸ hbefore⟩
    · rw [currentFileState_directory hdirectory] at hcurrent
      cases hcurrent
    · rw [currentFileState_missing hmissing, Except.ok.injEq] at hcurrent
      exact Or.inl ⟨hmissing, hcurrent ▸ hbefore⟩
    · have hfails : ∃ error,
          tree.currentFileState canonicalUtc blake3 operation.path = .error error :=
        currentFileState_belowFile hbelow
      rcases hfails with ⟨error, herror⟩
      rw [herror] at hcurrent
      cases hcurrent
  · rintro (⟨hmissing, hbefore⟩ | ⟨file, hfile, hbefore⟩)
    · exact ⟨none, currentFileState_missing hmissing, hbefore⟩
    · exact ⟨_, currentFileState_file hfile, hbefore⟩

theorem recoveryState_matches_iff (hregular : tree.OnlyRegular) :
    (∃ current, currentFileStateForRecovery canonicalUtc blake3 tree operation.path
        (beforeFiles operations) = .ok current ∧ inBeforeState operation current = true) ↔
      StandsAsBefore canonicalUtc blake3 tree operation ∨
        StandsInTheWay tree operations operation := by
  constructor
  · rintro ⟨current, hcurrent, hbefore⟩
    rcases WorkingTree.standing hregular operation.path.segments_ne_nil with
      ⟨file, hfile⟩ | hdirectory | hmissing | hbelow
    · rw [recoveryState_file hfile, Except.ok.injEq] at hcurrent
      exact Or.inl (Or.inr ⟨file, hfile, hcurrent ▸ hbefore⟩)
    · rw [recoveryState_directory hdirectory, Except.ok.injEq] at hcurrent
      exact Or.inr ⟨hcurrent ▸ hbefore, Or.inl hdirectory⟩
    · rw [recoveryState_missing hmissing, Except.ok.injEq] at hcurrent
      exact Or.inl (Or.inl ⟨hmissing, hcurrent ▸ hbefore⟩)
    · rcases (recoveryState_belowFile hbelow).mp hcurrent with ⟨hancestor, rfl⟩
      exact Or.inr ⟨hbefore, Or.inr ⟨hbelow, hancestor⟩⟩
  · rintro ((⟨hmissing, hbefore⟩ | ⟨file, hfile, hbefore⟩) |
      ⟨hbefore, hdirectory | ⟨hbelow, hancestor⟩⟩)
    · exact ⟨none, recoveryState_missing hmissing, hbefore⟩
    · exact ⟨_, recoveryState_file hfile, hbefore⟩
    · exact ⟨none, recoveryState_directory hdirectory, hbefore⟩
    · exact ⟨none, (recoveryState_belowFile hbelow).mpr ⟨hancestor, rfl⟩, hbefore⟩

/-! Whole journals. -/

theorem ensureBeforeStateRestored_iff (hregular : tree.OnlyRegular) :
    ensureBeforeStateRestored canonicalUtc blake3 tree operations = .ok () ↔
      ∀ operation ∈ operations, StandsAsBefore canonicalUtc blake3 tree operation ∨
        StandsInTheWay tree operations operation := by
  rw [ensureBeforeStateRestored, forM_eq_ok_iff]
  apply forall₂_congr
  intro operation _
  rw [← recoveryState_matches_iff hregular, except_bind_eq_ok]
  simp only [except_ensure_eq_ok, except_pure_eq_ok, and_true]

theorem inspectOperations_iff (hregular : tree.OnlyRegular) :
    inspectOperations canonicalUtc blake3 tree operations = .ok true ↔
      ∀ operation ∈ operations, StandsAsBefore canonicalUtc blake3 tree operation := by
  induction operations with
  | nil => simp [inspectOperations]
  | cons operation rest ih =>
      rw [List.forall_mem_cons, ← ih, ← currentFileState_matches_iff hregular, inspectOperations,
        except_bind_eq_ok]
      constructor
      · rintro ⟨current, hcurrent, h⟩
        split at h
        · next hbefore => exact ⟨⟨current, hcurrent, hbefore⟩, h⟩
        · rw [except_pure_eq_ok] at h
          exact absurd h Bool.false_ne_true
      · rintro ⟨⟨current, hcurrent, hbefore⟩, h⟩
        exact ⟨current, hcurrent, by rw [if_pos hbefore, h]⟩

theorem inspectProjectBeforeState_iff {reader : JournalReader} {directoryId journalPath : String}
    {bytes : Bytes} {journal : TransactionJournal}
    (hread : readTransactionJournal reader journalPath bytes = .ok journal)
    (hidentity : validateTransactionJournalIdentity directoryId journal = .ok ())
    (hoperations : journal.operations ≠ []) :
    inspectProjectBeforeState canonicalUtc blake3 tree reader directoryId journalPath
        (.ok (.file bytes)) = (true, []) ↔
      inspectOperations canonicalUtc blake3 tree journal.operations = .ok true := by
  simp only [inspectProjectBeforeState, except_bind_ok, hread, hidentity, if_neg hoperations]
  rcases inspectOperations canonicalUtc blake3 tree journal.operations with error | isBefore
  · simp
  · simp

/-- The two checks agree on a valid journal unless, with every other path as before, an
operation creates its file where a directory stands, or below a file when the journal found a
file above. -/
theorem beforeStateChecks_agree_iff {reader : JournalReader} {directoryId journalPath : String}
    {bytes : Bytes} {journal : TransactionJournal} (hregular : tree.OnlyRegular)
    (hread : readTransactionJournal reader journalPath bytes = .ok journal)
    (hidentity : validateTransactionJournalIdentity directoryId journal = .ok ())
    (hoperations : journal.operations ≠ []) :
    (inspectProjectBeforeState canonicalUtc blake3 tree reader directoryId journalPath
          (.ok (.file bytes)) = (true, []) ↔
        ensureBeforeStateRestored canonicalUtc blake3 tree journal.operations = .ok ()) ↔
      (∀ operation ∈ journal.operations, ¬ StandsInTheWay tree journal.operations operation) ∨
        ∃ operation ∈ journal.operations, ¬ StandsAsBefore canonicalUtc blake3 tree operation ∧
          ¬ StandsInTheWay tree journal.operations operation := by
  rw [inspectProjectBeforeState_iff hread hidentity hoperations, inspectOperations_iff hregular,
    ensureBeforeStateRestored_iff hregular]
  constructor
  · intro hagree
    by_cases hall : ∀ operation ∈ journal.operations,
        StandsAsBefore canonicalUtc blake3 tree operation ∨
          StandsInTheWay tree journal.operations operation
    · left
      intro operation hmem
      exact not_standsInTheWay (hagree.mpr hall operation hmem)
    · right
      push Not at hall
      exact hall
  · rintro (hnone | ⟨operation, hmem, hnot, hway⟩)
    · exact forall₂_congr fun operation hmem => (or_iff_left (hnone operation hmem)).symm
    · apply iff_of_false
      · exact fun hall => hnot (hall operation hmem)
      · exact fun hall => (hall operation hmem).elim hnot hway

end Checks

/-! A file in the place of a folder that a discard restores. -/

theorem length_jsonBytes_le (value : JsonValue) :
    (jsonBytes value).length ≤ 4 * value.compact.length := by
  rw [jsonBytes, utf8_ofList]
  induction value.compact with
  | nil => exact le_refl _
  | cons character text ih =>
      have hcharacter : (String.utf8EncodeChar character).length ≤ 4 := by
        rw [String.length_utf8EncodeChar]
        exact character.utf8Size_le_four
      rw [List.flatMap_cons, List.length_append, List.length_cons]
      omega

def wayFiles : FileTree ProjectFile :=
  .ofList [([], .directory), (["Assets"], .directory), (["Assets", "a"], .file ⟨[1], ⟨0, 0⟩⟩)]

def wayTree : WorkingTree :=
  .exact "project" wayFiles (by decide) (by decide) (by decide)

def wayBelow : TrackedUnityFilePath := ⟨"Assets/a/b", by decide⟩

def wayTime : String := "1970-01-01T00:00:00Z"

def wayOperations : List FileOperation :=
  [{ operationType := .delete
     path := folderAsset
     beforeHash := some (lengthDigest [1])
     beforeSizeBytes := some 1
     beforeModifiedAtUtc := some wayTime
     afterHash := none
     afterSizeBytes := none
     afterModifiedAtUtc := none },
   { operationType := .restore
     path := wayBelow
     beforeHash := none
     beforeSizeBytes := none
     beforeModifiedAtUtc := none
     afterHash := some (lengthDigest [])
     afterSizeBytes := some 0
     afterModifiedAtUtc := some wayTime }]

def wayJournal : TransactionJournal :=
  { schemaVersion := 3
    transactionId := "0123456789abcdef0123456789abcdef"
    state := .applying
    checkpointId := lengthDigest []
    kind := .discard
    operations := wayOperations
    directoriesToRemove := []
    directoriesToCreate := [folderAsset]
    createdAtUtc := wayTime
    updatedAtUtc := wayTime }

def wayCheckpoint : SnapshotFile :=
  { folderCheckpoint with files := [⟨wayBelow, 0, wayTime, .whole (lengthDigest []) 0⟩] }

def wayBytes : Bytes := jsonBytes wayJournal.toJson

/-- A reader that knows one text. -/
def JournalReader.knowing (text : Bytes) (journal : TransactionJournal) : JournalReader where
  schemaVersion bytes := if bytes = text then .ok journal.schemaVersion else .error "expected value"
  journal bytes := if bytes = text then .ok journal else .error "expected value"

theorem readTransactionJournal_knowing {text : Bytes} {journal : TransactionJournal} (path : String)
    (hlength : text.length ≤ maxTransactionJournalBytes)
    (hversion : journal.schemaVersion = transactionJournalSchemaVersion) :
    readTransactionJournal (.knowing text journal) path text = .ok journal := by
  simp only [readTransactionJournal, readBytesBounded, if_neg (Nat.not_lt.mpr hlength),
    except_bind_ok, JournalReader.knowing, if_true, jsonResult, hversion, ne_eq, not_true, if_false]

def wayReader : JournalReader := .knowing wayBytes wayJournal

theorem wayTree_regular : wayTree.OnlyRegular := by
  have hall : ∀ path ∈ wayFiles.paths, wayFiles.entry path = some .directory ∨
      (wayFiles.file path).isSome = true := by decide
  intro path entry hentry
  have hfound : wayFiles.entry path = some entry := hentry
  have hmem : path ∈ wayFiles.paths := by
    rw [wayFiles.mem_paths, hfound]
    exact nofun
  rcases hall path hmem with hdirectory | hfile
  · rw [hfound, Option.some.injEq] at hdirectory
    exact Or.inl hdirectory
  · rcases Option.isSome_iff_exists.mp hfile with ⟨file, hfile⟩
    rw [FileTree.file_eq_some, hfound, Option.some.injEq] at hfile
    exact Or.inr ⟨file, hfile⟩

theorem wayJournal_read : readTransactionJournal wayReader "journal.json" wayBytes =
    .ok wayJournal := by
  have htext : wayJournal.toJson.compact.length < 1000 := by decide +kernel
  have hfour := Nat.mul_le_mul_left 4 htext.le
  have hlimit : 4 * 1000 ≤ maxTransactionJournalBytes := by decide
  exact readTransactionJournal_knowing "journal.json"
    ((length_jsonBytes_le wayJournal.toJson).trans (hfour.trans hlimit)) rfl

theorem wayOperations_valid : validateJournalOperations (fun _ => .ok wayCheckpoint)
    wayJournal.checkpointId wayJournal.operations = .ok () := by
  have hsorted : sortOperations wayOperations = wayOperations :=
    List.mergeSort_of_pairwise (by decide +kernel)
  rw [validateJournalOperations, show wayJournal.operations = wayOperations from rfl, hsorted,
    if_neg (not_not.mpr rfl)]
  decide +kernel

/-- The journal and the tree are valid and nothing has changed, but only one of the checks
says so. -/
theorem beforeStateChecks_disagree :
    readTransactionJournal wayReader "journal.json" wayBytes = .ok wayJournal ∧
      validateTransactionJournalIdentity wayJournal.transactionId wayJournal = .ok () ∧
      validateJournalOperations (fun _ => .ok wayCheckpoint) wayJournal.checkpointId
        wayJournal.operations = .ok () ∧
      validateJournalDirectoryTopology wayJournal.operations wayJournal.directoriesToRemove
        wayJournal.directoriesToCreate = .ok () ∧
      wayTree.OnlyRegular ∧
      ensureBeforeStateRestored folderTime lengthDigest wayTree wayJournal.operations = .ok () ∧
      inspectProjectBeforeState folderTime lengthDigest wayTree wayReader wayJournal.transactionId
        "journal.json" (.ok (.file wayBytes)) ≠ (true, []) := by
  refine ⟨wayJournal_read, rfl, wayOperations_valid, by decide +kernel, wayTree_regular,
    by decide +kernel, ?_⟩
  have hread : inspectOperations folderTime lengthDigest wayTree wayJournal.operations ≠
      .ok true := by decide +kernel
  rw [Ne, inspectProjectBeforeState_iff wayJournal_read rfl (List.cons_ne_nil _ _)]
  exact hread

theorem beforeStateChecks_agree_iff_way :
    (inspectProjectBeforeState folderTime lengthDigest wayTree wayReader wayJournal.transactionId
          "journal.json" (.ok (.file wayBytes)) = (true, []) ↔
        ensureBeforeStateRestored folderTime lengthDigest wayTree wayJournal.operations = .ok ()) ↔
      (∀ operation ∈ wayJournal.operations,
          ¬ StandsInTheWay wayTree wayJournal.operations operation) ∨
        ∃ operation ∈ wayJournal.operations,
          ¬ StandsAsBefore folderTime lengthDigest wayTree operation ∧
            ¬ StandsInTheWay wayTree wayJournal.operations operation :=
  beforeStateChecks_agree_iff wayTree_regular wayJournal_read rfl (List.cons_ne_nil _ _)

end CheckPo
