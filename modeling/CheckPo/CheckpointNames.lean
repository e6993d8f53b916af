/-
Display names of checkpoints: the map of overrides in `refs/checkpoint_names.json`, and
the operations that change it.
-/
import CheckPo.JsonText
import CheckPo.RepositoryFiles

namespace CheckPo

def maxCheckpointNamesFileBytes : Nat := 16 * 1024 * 1024

/-- `BTreeMap<String, String>`. -/
abbrev NameMap := Std.ExtTreeMap String String compare

/-- A parsed value: `as_object`, and `as_str` of its members. -/
inductive NamesValue where
  | object (members : Std.ExtTreeMap String (Option String) compare)
  | other

/-- `serde_json` on the map of names: what it writes is read back. -/
structure NamesJson where
  toVec : NameMap → Bytes
  fromSlice : Bytes → Except String NamesValue
  fromSlice_toVec : ∀ names, fromSlice (toVec names) = .ok (.object (names.map fun _ => some))
  toVec_empty : toVec ∅ = utf8 "\x7b\x7d"

structure CheckpointNamesState where
  /-- The names in the snapshot roots. -/
  snapshots : SnapshotId → Option String
  /-- `refs/checkpoint_names.json`. -/
  namesFile : Option Bytes

def checkpointNamesPath : String := "refs/checkpoint_names.json"

section Names

variable (json : NamesJson)

/-- One member of the object: a name, or a warning. -/
def readNameEntry (state : NameMap × List String) (entry : String × Option String) :
    NameMap × List String :=
  match parseLowerHexId "snapshot" entry.1 with
  | .error error => (state.1, state.2 ++
      [s!"checkpoint display name entry has an invalid id and was ignored: {error.message}"])
  | .ok _ => match (entry.2.map trim).filter fun name => name != "" with
    | none => (state.1, state.2 ++
        [s!"checkpoint display name for {entry.1} is empty or invalid and was ignored"])
    | some name =>
        if maxCheckpointNameBytes < (utf8 name).length then (state.1, state.2 ++
          [s!"checkpoint display name for {entry.1} exceeds {maxCheckpointNameBytes} bytes and was ignored"])
        else (state.1.insert entry.1 name, state.2)

def readCheckpointNameOverrides (namesFile : Option Bytes) : NameMap × List String :=
  match namesFile with
  | none => (∅, [])
  | some bytes =>
      let value := do
        let bytes ← readBytesBounded checkpointNamesPath maxCheckpointNamesFileBytes bytes
        match json.fromSlice bytes with
        | .ok value => .ok value
        | .error message => .error (.json checkpointNamesPath message)
      match value with
      | .error error =>
          (∅, [s!"checkpoint display names could not be loaded and were ignored: {error.message}"])
      | .ok .other =>
          (∅, [s!"{checkpointNamesPath} is not a checkpoint display name map and was ignored"])
      | .ok (.object members) => members.toList.foldl readNameEntry (∅, [])

def writeCheckpointNameOverrides (names : NameMap) : Option Bytes := some (json.toVec names)

def readCheckpointNameOverridesForMutation (namesFile : Option Bytes) : CheckPoResult NameMap :=
  let (names, warnings) := readCheckpointNameOverrides json namesFile
  let joined := "; ".intercalate warnings
  if warnings = [] then .ok names
  else .error (.corruption
    s!"checkpoint display names cannot be modified until their metadata is repaired: {joined}")

def removeCheckpointNameOverride (id : SnapshotId) (namesFile : Option Bytes) :
    CheckPoResult (Option Bytes) := do
  let names ← readCheckpointNameOverridesForMutation json namesFile
  if id.toHex ∈ names then return writeCheckpointNameOverrides json (names.erase id.toHex)
  else return namesFile

def pruneCheckpointNameOverrides (live : List SnapshotId) (namesFile : Option Bytes) :
    CheckPoResult (Option Bytes) := do
  let names ← readCheckpointNameOverridesForMutation json namesFile
  let kept := names.filter fun checkpointId _ =>
    decide (checkpointId ∈ live.map fun id => id.toHex)
  if 0 < names.size - kept.size then return writeCheckpointNameOverrides json kept
  else return namesFile

/-- `rename_checkpoint`; `--name` is trimmed. -/
def renameCheckpoint (checkpointId name : String) (state : CheckpointNamesState) :
    CheckPoResult CheckpointNamesState := do
  let name := trim name
  if name = "" then .error (.user "checkpoint rename requires --name <name>.")
  else if maxCheckpointNameBytes < (utf8 name).length then
    .error (.user s!"checkpoint name must be at most {maxCheckpointNameBytes} UTF-8 bytes.")
  else
    let id ← parseLowerHexId "snapshot" checkpointId
    match state.snapshots id with
    | none => .error (.snapshotNotFound id.toHex)
    | some snapshotName =>
        let names ← readCheckpointNameOverridesForMutation json state.namesFile
        let names := if name = snapshotName then names.erase id.toHex
          else names.insert id.toHex name
        return { state with namesFile := writeCheckpointNameOverrides json names }

/-- `delete_checkpoint`; a failure to clean up the name is a warning. -/
def deleteCheckpoint (checkpointId : String) (state : CheckpointNamesState) :
    CheckPoResult CheckpointNamesState := do
  let id ← parseLowerHexId "snapshot" checkpointId
  match state.snapshots id with
  | none => .error (.snapshotNotFound id.toHex)
  | some _ =>
      let _ ← readCheckpointNameOverridesForMutation json state.namesFile
      let snapshots := Function.update state.snapshots id none
      match removeCheckpointNameOverride json id state.namesFile with
      | .ok namesFile => return { snapshots := snapshots, namesFile := namesFile }
      | .error _ => return { state with snapshots := snapshots }

inductive NamesOperation where
  | create (id : SnapshotId) (name : String)
  | rename (checkpointId name : String)
  | delete (checkpointId : String)
  | prune (live : List SnapshotId)

def NamesOperation.run (state : CheckpointNamesState) :
    NamesOperation → CheckPoResult CheckpointNamesState
  | create id name =>
      return { state with snapshots := Function.update state.snapshots id (some name) }
  | rename checkpointId name => renameCheckpoint json checkpointId name state
  | delete checkpointId => deleteCheckpoint json checkpointId state
  | prune live => do
      let namesFile ← pruneCheckpointNameOverrides json live state.namesFile
      return { state with namesFile := namesFile }

end Names

end CheckPo
