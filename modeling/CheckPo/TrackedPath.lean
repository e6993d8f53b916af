/-
Tracked Unity file paths and the portable key under which a path is ordered:
NFC, locale-independent full lowercase, NFC again, as UTF-8 bytes.
-/
import CheckPo.MerkleCodec
import CheckPo.ExceptRules

namespace CheckPo

/-- The error kinds of the library that the modelled functions return. -/
inductive CheckPoError where
  | user (message : String)
  | invalidTrackedPath (message : String)
  | outsideTrackedScope (message : String)
  | invalidId (message : String)
  | snapshotNotFound (id : String)
  | objectMissing (path : String)
  | objectHashMismatch (message : String)
  | workingTreeChanged (path : String)
  | repositoryLocked (message : String)
  | pendingTransaction (message : String)
  | unresolvedTransactionQuarantine (message : String)
  | copiedProjectSuspected (message : String)
  | unsupportedFormat (artifact : String) (found supported : Nat)
  | unsafeFolderMetaOperation (message : String)
  | notFound (path : String)
  | alreadyExists (path : String)
  | io (path message : String)
  | json (path message : String)
  | db (path message : String)
  | indexUnavailable (message : String)
  | corruption (message : String)
  | unexpected (message : String)
deriving DecidableEq, Repr

def CheckPoError.message : CheckPoError → String
  | .user message => message
  | .invalidTrackedPath message => s!"invalid tracked path: {message}"
  | .outsideTrackedScope message => s!"outside tracked scope: {message}"
  | .invalidId message => s!"invalid id: {message}"
  | .snapshotNotFound id => s!"snapshot not found: {id}"
  | .objectMissing path => s!"object missing: {path}"
  | .objectHashMismatch message => s!"object hash mismatch: {message}"
  | .workingTreeChanged path => s!"working tree changed: {path}"
  | .repositoryLocked message => s!"repository locked: {message}"
  | .pendingTransaction message => s!"pending transaction: {message}"
  | .unresolvedTransactionQuarantine message => s!"unresolved transaction quarantine: {message}"
  | .copiedProjectSuspected message => message
  | .unsupportedFormat artifact found supported =>
      s!"unsupported {artifact} version {found}; this CheckPo supports version {supported}"
  | .unsafeFolderMetaOperation message =>
      s!"folder metadata cannot be changed independently: {message}"
  | .notFound path => s!"io error at {path}: entity not found"
  | .alreadyExists path => s!"io error at {path}: entity already exists"
  | .io path message => s!"io error at {path}: {message}"
  | .json path message => s!"json error at {path}: {message}"
  | .db path message => s!"database error at {path}: {message}"
  | .indexUnavailable message => s!"index unavailable: {message}"
  | .corruption message => s!"corruption: {message}"
  | .unexpected message => s!"unexpected error: {message}"

abbrev CheckPoResult := Except CheckPoError

inductive SnapshotV2Error where
  | codec (error : CodecError)
  | invalid (message : String)
  | source (message : String)
deriving DecidableEq, Repr

def SnapshotV2Error.message : SnapshotV2Error → String
  | .codec error => error.message
  | .invalid message => s!"invalid snapshot v2 manifest: {message}"
  | .source message => s!"snapshot v2 manifest source: {message}"

abbrev SnapshotV2Result := Except SnapshotV2Error

/-- The `From<CodecError>` conversion applied by `?`. -/
def fromCodec {α : Type} (result : CodecResult α) : SnapshotV2Result α :=
  match result with
  | .ok value => .ok value
  | .error error => .error (.codec error)

instance : MonadLift CodecResult SnapshotV2Result := ⟨fromCodec⟩

@[simp] theorem liftM_codec_eq_ok {α : Type} {result : CodecResult α} {value : α} :
    (liftM result : SnapshotV2Result α) = .ok value ↔ result = .ok value := by
  change fromCodec result = .ok value ↔ _
  cases result <;> simp [fromCodec]

/-! The path policy. -/

def invalidPath (input reason : String) : CheckPoError :=
  .invalidTrackedPath s!"{input}: {reason}"

def isReservedDeviceDigit (value : List Char) : Bool :=
  ["1", "2", "3", "4", "5", "6", "7", "8", "9", "¹", "²", "³"].any
    fun digit => value == digit.toList

def asciiUpper (value : Char) : Char :=
  if 'a' ≤ value ∧ value ≤ 'z' then Char.ofNat (value.toNat - 32) else value

def isWindowsReservedName (segment : List Char) : Bool :=
  let upper := (segment.takeWhile (· ≠ '.')).map asciiUpper
  ["CON", "PRN", "AUX", "NUL", "CONIN$", "CONOUT$"].any
      (fun name => upper == name.toList) ||
    (upper.take 3 == "COM".toList && isReservedDeviceDigit (upper.drop 3)) ||
    (upper.take 3 == "LPT".toList && isReservedDeviceDigit (upper.drop 3))

def isWindowsForbiddenCharacter (value : Char) : Bool :=
  value.toNat ≤ 0x1f || ['<', '>', '"', '|', '?', '*'].contains value

/-- The checks on one segment, in the order of the source. -/
def checkSegment (input : String) (segment : List Char) : CheckPoResult Unit :=
  if segment = [] then
    .error (invalidPath input "empty segment is not allowed")
  else if segment = ['.'] ∨ segment = ['.', '.'] then
    .error (invalidPath input "dot segments are not allowed")
  else if segment.getLast? = some ' ' ∨ segment.getLast? = some '.' then
    .error (invalidPath input "segments ending with space or dot are not allowed")
  else if segment.any isWindowsForbiddenCharacter = true then
    .error (invalidPath input "Windows-forbidden characters are not allowed")
  else if isWindowsReservedName segment = true then
    .error (invalidPath input "Windows reserved file names are not allowed")
  else .ok ()

/-- The checks of `TrackedUnityFilePath::parse` (Unix: absolute means a leading
slash). -/
def checkTrackedPath (input : String) : CheckPoResult Unit :=
  let segments := input.toList.splitOn '/'
  if input.toList = [] then .error (invalidPath input "empty path")
  else if input.toList.contains '\\' = true then
    .error (invalidPath input "backslash is not allowed")
  else if input.toList.contains ':' = true then
    .error (invalidPath input "colon is not allowed")
  else if input.toList.head? = some '/' then
    .error (invalidPath input "absolute path is not allowed")
  else if segments.length < 2 then
    .error (invalidPath input "tracked root alone is not a file path")
  else if ["Assets", "Packages", "ProjectSettings"].all
      (fun root => segments.head? != some root.toList) = true then
    .error (.outsideTrackedScope input)
  else segments.forM (checkSegment input)

/-- A path that passed `parse`; no other can be built. -/
structure TrackedUnityFilePath where
  text : String
  valid : checkTrackedPath text = .ok ()
deriving DecidableEq

def TrackedUnityFilePath.parse (input : String) :
    CheckPoResult TrackedUnityFilePath :=
  match h : checkTrackedPath input with
  | .ok () => .ok ⟨input, h⟩
  | .error error => .error error

theorem TrackedUnityFilePath.parse_text (path : TrackedUnityFilePath) :
    TrackedUnityFilePath.parse path.text = .ok path := by
  unfold TrackedUnityFilePath.parse
  split
  · rfl
  · next error herror => exact absurd (herror.symm.trans path.valid) (by simp)

theorem TrackedUnityFilePath.parse_eq_ok {input : String}
    {path : TrackedUnityFilePath} (h : TrackedUnityFilePath.parse input = .ok path) :
    path.text = input := by
  unfold TrackedUnityFilePath.parse at h
  split at h
  · cases h
    rfl
  · cases h

theorem TrackedUnityFilePath.text_injective {left right : TrackedUnityFilePath}
    (h : left.text = right.text) : left = right := by
  cases left
  cases right
  cases h
  rfl

/-- The tables of the `unicode_normalization` and `unicode_case_mapping`
crates, both at Unicode 16, and of the formatting of strings by `{:?}`. -/
structure UnicodeTables where
  nfc : String → String
  /-- `to_lowercase`: up to two scalars, `(0, 0)` for an unmapped character. -/
  toLowercase : Char → Nat × Nat
  /-- The characters that extend a grapheme or cannot be printed. -/
  debugEscapes : Char → Bool

/-- `char::from_u32`. -/
def charFromU32 (scalar : Nat) : Option Char :=
  if h : scalar.isValidChar then some ⟨⟨scalar, by
    have hlt : scalar < 0x110000 := by
      rcases h with h | h <;> omega
    exact Nat.lt_trans hlt (by decide)⟩, h⟩ else none

/-- The lowercase of one character. -/
def lowerChar (tables : UnicodeTables) (character : Char) :
    SnapshotV2Result (List Char) :=
  let mapping := tables.toLowercase character
  if mapping = (0, 0) then .ok [character]
  else ([mapping.1, mapping.2].takeWhile (· ≠ 0)).mapM fun scalar =>
    orError (charFromU32 scalar) (.invalid
      s!"Unicode 16 lowercase table returned invalid scalar U+{(paddedHex 4 scalar).toUpper}")

def lowerChars (tables : UnicodeTables) (text : String) : SnapshotV2Result String := do
  let lowered ← text.toList.mapM (lowerChar tables)
  return String.ofList lowered.flatten

def portablePathKeyV1 (tables : UnicodeTables) (exactPath : String) :
    SnapshotV2Result Bytes := do
  if maxExactPathBytes < (utf8 exactPath).length then
    .error (.codec (.limit "exact path" (utf8 exactPath).length maxExactPathBytes))
  else
    match checkTrackedPath exactPath with
    | .error error => .error (.invalid error.message)
    | .ok () =>
        let lowered ← lowerChars tables (tables.nfc exactPath)
        let key := utf8 (tables.nfc lowered)
        if maxExactPathBytes < key.length then
          .error (.codec (.limit "portable path key" key.length maxExactPathBytes))
        else return key

theorem portablePathKeyV1_tracked {tables : UnicodeTables} {path : String}
    {key : Bytes} (h : portablePathKeyV1 tables path = .ok key) :
    checkTrackedPath path = .ok () := by
  simp only [portablePathKeyV1, except_guard_eq_ok] at h
  obtain ⟨-, h⟩ := h
  split at h
  · cases h
  · next hcheck => exact hcheck

end CheckPo
