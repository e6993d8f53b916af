/-
The canonical binary codec of snapshot roots and manifest chunks: field order,
integer widths and byte order are the persistent repository format.
-/
import CheckPo.ByteReader

namespace CheckPo

/-- `CPMRKL2` followed by a zero byte. -/
def magic : Bytes := [67, 80, 77, 82, 75, 76, 50, 0]
def codecVersion : UInt8 := 1
def envelopeLen : Nat := 16

def maxRootBytes : Nat := 64 * 1024
def maxManifestChunkBytes : Nat := 1024 * 1024
def maxExactPathBytes : Nat := 128 * 1024
def maxCheckpointNameBytes : Nat := 4 * 1024
def maxToolVersionBytes : Nat := 256
def maxPrefixBytes : Nat := maxExactPathBytes
def maxLeafEntries : Nat := 16384
def maxNodeChildren : Nat := 256

/-- The domain strings end in a zero byte. -/
def rootHashDomain : Bytes :=
  "checkpo.snapshot-root.v2".toByteArray.data.toList ++ [0]
def nodeHashDomain : Bytes :=
  "checkpo.manifest-node.v2".toByteArray.data.toList ++ [0]
def leafHashDomain : Bytes :=
  "checkpo.manifest-leaf.v2".toByteArray.data.toList ++ [0]

def payloadSchema : UInt16 := 1
def trackedScopePolicy : UInt16 := 1
def pathKeyPolicy : UInt16 := 1
def contentPolicy : UInt16 := 1

inductive CodecError where
  | invalid (message : String)
  | limit (field : String) (actual bound : Nat)
  | overflow (field : String)
deriving DecidableEq, Repr

def CodecError.message : CodecError → String
  | .invalid message => s!"invalid snapshot v2 encoding: {message}"
  | .limit field actual bound =>
      s!"snapshot v2 value exceeds {field} limit ({actual} > {bound})"
  | .overflow field => s!"snapshot v2 integer overflow while computing {field}"

abbrev CodecResult := Except CodecError

/-- A 32-byte digest; its length is part of the type, as in `[u8; 32]`. -/
structure Digest32 where
  bytes : Bytes
  length_eq : bytes.length = 32
deriving DecidableEq

def lowerHexDigit (value : Nat) : Char :=
  if value < 10 then Char.ofNat (48 + value) else Char.ofNat (87 + value)

def Digest32.toHex (digest : Digest32) : String :=
  String.ofList (digest.bytes.flatMap fun byte =>
    [lowerHexDigit (byte.toNat / 16), lowerHexDigit (byte.toNat % 16)])

inductive ChunkKind where
  | root
  | node
  | leaf
deriving DecidableEq, Repr

namespace ChunkKind

/-- `kind as u8`. -/
def toByte : ChunkKind → UInt8
  | .root => 1
  | .node => 2
  | .leaf => 3

def parse (value : UInt8) : CodecResult ChunkKind :=
  if value = 1 then .ok .root
  else if value = 2 then .ok .node
  else if value = 3 then .ok .leaf
  else .error (.invalid s!"unknown chunk kind {value}")

def maximumStoredLen : ChunkKind → Nat
  | .root => maxRootBytes
  | .node | .leaf => maxManifestChunkBytes

/-- The `{:?}` text of a kind. -/
def debugName : ChunkKind → String
  | .root => "Root"
  | .node => "Node"
  | .leaf => "Leaf"

end ChunkKind

structure ManifestRef where
  kind : ChunkKind
  id : Digest32
deriving DecidableEq

def ManifestRef.new (kind : ChunkKind) (id : Digest32) : CodecResult ManifestRef :=
  match kind with
  | .node | .leaf => .ok ⟨kind, id⟩
  | .root => .error (.invalid "manifest reference must point to a node or leaf")

structure Timestamp where
  unixSeconds : Int64
  nanoseconds : UInt32
deriving DecidableEq, Repr

def Timestamp.new (unixSeconds : Int64) (nanoseconds : UInt32) :
    CodecResult Timestamp :=
  if 1000000000 ≤ nanoseconds then
    .error (.invalid s!"timestamp nanoseconds out of range: {nanoseconds}")
  else .ok ⟨unixSeconds, nanoseconds⟩

/-- `u64::checked_add`. -/
def checkedAdd (left right : UInt64) : Option UInt64 :=
  if left.toNat + right.toNat < 2 ^ 64 then some (left + right) else none

/-- `u64::checked_sub`. -/
def checkedSub (left right : UInt64) : Option UInt64 :=
  if right ≤ left then some (left - right) else none

/-- `ok_or`. -/
def orError {ε α : Type} (value : Option α) (error : ε) : Except ε α :=
  match value with
  | some value => .ok value
  | none => .error error

structure ManifestSummary where
  entryCount : UInt64
  logicalSizeBytes : UInt64
  totalExactPathBytes : UInt64
deriving DecidableEq, Repr

namespace ManifestSummary

/-- The derived `Default`. -/
def zero : ManifestSummary := ⟨0, 0, 0⟩

def checkedAdd (left right : ManifestSummary) : CodecResult ManifestSummary := do
  let entryCount ← orError
    (CheckPo.checkedAdd left.entryCount right.entryCount)
    (.overflow "manifest entry count")
  let logicalSizeBytes ← orError
    (CheckPo.checkedAdd left.logicalSizeBytes right.logicalSizeBytes)
    (.overflow "manifest logical size")
  let totalExactPathBytes ← orError
    (CheckPo.checkedAdd left.totalExactPathBytes right.totalExactPathBytes)
    (.overflow "manifest exact path bytes")
  return ⟨entryCount, logicalSizeBytes, totalExactPathBytes⟩

end ManifestSummary

/-- The UTF-8 bytes of a string, `as_bytes`. -/
def utf8 (text : String) : Bytes := text.toByteArray.data.toList

/-- `String::from_utf8`. -/
def fromUtf8 (bytes : Bytes) : Option String :=
  String.fromUTF8? ⟨bytes.toArray⟩

structure SnapshotRoot where
  /-- The 16 bytes of the project's UUID. -/
  projectId : { bytes : Bytes // bytes.length = 16 }
  parent : Option Digest32
  created : Timestamp
  checkpointName : String
  toolVersion : String
  manifest : Option ManifestRef
  summary : ManifestSummary
deriving DecidableEq

structure LeafEntry where
  exactPath : String
  sizeBytes : UInt64
  modified : Timestamp
  objectId : Digest32
deriving DecidableEq

structure ManifestLeaf where
  portablePrefix : Bytes
  entries : List LeafEntry
deriving DecidableEq

def usizeToU64 (field : String) (value : Nat) : CodecResult UInt64 :=
  if value < 2 ^ 64 then .ok (UInt64.ofNat value) else .error (.overflow field)

def LeafEntry.summary (entry : LeafEntry) : CodecResult ManifestSummary := do
  let pathBytes ← usizeToU64 "exact path byte count" (utf8 entry.exactPath).length
  return ⟨1, entry.sizeBytes, pathBytes⟩

def ManifestLeaf.summary (leaf : ManifestLeaf) : CodecResult ManifestSummary :=
  leaf.entries.foldlM
    (fun summary entry => do summary.checkedAdd (← entry.summary)) .zero

structure ManifestChild where
  /-- Zero is the portable-key terminator; all other values are the next byte. -/
  edge : UInt8
  child : ManifestRef
  summary : ManifestSummary
deriving DecidableEq

structure ManifestNode where
  portablePrefix : Bytes
  children : List ManifestChild
deriving DecidableEq

def ManifestNode.summary (node : ManifestNode) : CodecResult ManifestSummary :=
  node.children.foldlM (fun summary child => summary.checkedAdd child.summary)
    .zero

section Hash

-- BLAKE3 is not part of the repository: what hashes takes it as a parameter.
variable (blake3 : Bytes → Digest32)

/-- Hashing a domain and then the bytes hashes their concatenation. -/
def domainHash (domain bytes : Bytes) : Digest32 := blake3 (domain ++ bytes)

def rootId (storedBytes : Bytes) : Digest32 :=
  domainHash blake3 rootHashDomain storedBytes

def verifyRootId (expected : Digest32) (storedBytes : Bytes) : CodecResult Unit :=
  let actual := rootId blake3 storedBytes
  if actual ≠ expected then
    .error (.invalid
      s!"snapshot root digest mismatch: expected {expected.toHex}, found {actual.toHex}")
  else .ok ()

def manifestId (kind : ChunkKind) (storedBytes : Bytes) : CodecResult Digest32 :=
  match kind with
  | .node => .ok (domainHash blake3 nodeHashDomain storedBytes)
  | .leaf => .ok (domainHash blake3 leafHashDomain storedBytes)
  | .root => .error (.invalid "root cannot be used as a manifest chunk")

def verifyManifestId (reference : ManifestRef) (storedBytes : Bytes) :
    CodecResult Unit := do
  let actual ← manifestId blake3 reference.kind storedBytes
  if actual ≠ reference.id then
    .error (.invalid
      s!"manifest {reference.kind.toByte} digest mismatch: expected {reference.id.toHex}, found {actual.toHex}")
  else .ok ()

end Hash

def validateBytes (field : String) (value : Bytes) (limit : Nat) :
    CodecResult Unit :=
  if limit < value.length then .error (.limit field value.length limit)
  else .ok ()

def validateText (field value : String) (limit : Nat) : CodecResult Unit :=
  validateBytes field (utf8 value) limit

def validateCount (field : String) (value limit : Nat) : CodecResult Unit :=
  if limit < value then .error (.limit field value limit) else .ok ()

def usizeToU32 (field : String) (value : Nat) : CodecResult UInt32 :=
  if value < 2 ^ 32 then .ok (UInt32.ofNat value)
  else .error (.limit field value (2 ^ 32 - 1))

/-! The writer's methods, each returning the bytes it appends. -/

namespace Writer

def u8 (value : UInt8) : Bytes := [value]
def u16 (value : UInt16) : Bytes := toBigEndian 2 value.toNat
def u32 (value : UInt32) : Bytes := toBigEndian 4 value.toNat
def u64 (value : UInt64) : Bytes := toBigEndian 8 value.toNat
def i64 (value : Int64) : Bytes := toBigEndian 8 value.toUInt64.toNat
def digest (value : Digest32) : Bytes := value.bytes

def bytes (value : Bytes) : CodecResult Bytes := do
  return u32 (← usizeToU32 "byte string length" value.length) ++ value

def string (value : String) : CodecResult Bytes := bytes (utf8 value)

def summary (value : ManifestSummary) : Bytes :=
  u64 value.entryCount ++ u64 value.logicalSizeBytes ++
    u64 value.totalExactPathBytes

end Writer

/-! The reader's methods. -/

abbrev Reader := ByteReader CodecError

namespace Reader

def fail {α : Type} (error : CodecError) : Reader α := throw error

def take (count : Nat) : Reader Bytes := fun remaining =>
  if remaining.length < count then
    .error (.invalid
      s!"truncated payload: need {count} bytes, have {remaining.length}")
  else .ok (remaining.take count, remaining.drop count)

def u8 : Reader UInt8 := do
  return UInt8.ofNat (ofBigEndian (← take 1))

def u16 : Reader UInt16 := do
  return UInt16.ofNat (ofBigEndian (← take 2))

def u32 : Reader UInt32 := do
  return UInt32.ofNat (ofBigEndian (← take 4))

def u64 : Reader UInt64 := do
  return UInt64.ofNat (ofBigEndian (← take 8))

def i64 : Reader Int64 := do
  return (UInt64.ofNat (ofBigEndian (← take 8))).toInt64

/-- `array::<N>`, for the two array lengths the format has. -/
def array (count : Nat) : Reader { bytes : Bytes // bytes.length = count } :=
  fun remaining =>
    if h : remaining.length < count then
      .error (.invalid
        s!"truncated payload: need {count} bytes, have {remaining.length}")
    else .ok (⟨remaining.take count, by
      rw [List.length_take]; omega⟩, remaining.drop count)

def digest : Reader Digest32 := do
  let value ← array 32
  return ⟨value.val, value.property⟩

def bytes (field : String) (limit : Nat) : Reader Bytes := do
  let length := (← u32).toNat
  if limit < length then fail (.limit field length limit) else take length

def string (field : String) (limit : Nat) : Reader String := do
  match fromUtf8 (← bytes field limit) with
  | some text => return text
  | none => fail (.invalid s!"{field} is not valid UTF-8")

def count (field : String) (limit : Nat) : Reader Nat := do
  let count := (← u32).toNat
  if limit < count then fail (.limit field count limit) else return count

def summary : Reader ManifestSummary := do
  let entryCount ← u64
  let logicalSizeBytes ← u64
  let totalExactPathBytes ← u64
  return ⟨entryCount, logicalSizeBytes, totalExactPathBytes⟩

/-- Run a reader on a whole payload; `finish` rejects trailing bytes. -/
def runToEnd {α : Type} (reader : Reader α) (payload : Bytes) : CodecResult α := do
  let (value, remaining) ← reader.run payload
  if remaining.isEmpty then return value
  else .error (.invalid s!"{remaining.length} trailing payload bytes")

end Reader

def envelope (kind : ChunkKind) (payload : Bytes) : CodecResult Bytes := do
  let storedLen := envelopeLen + payload.length
  if kind.maximumStoredLen < storedLen then
    .error (.limit "stored chunk bytes" storedLen kind.maximumStoredLen)
  else
    let payloadLen ← usizeToU32 "payload length" payload.length
    return magic ++ Writer.u8 kind.toByte ++ Writer.u8 codecVersion ++
      Writer.u16 0 ++ Writer.u32 payloadLen ++ payload

/-- A number in hexadecimal digits, with zeros in front up to a width. -/
def paddedHex (width value : Nat) : String :=
  String.ofList ((Nat.toDigits 16 value).leftpad width '0')

def decodeEnvelope (stored : Bytes) (expectedKind : ChunkKind) :
    CodecResult Bytes := do
  if expectedKind.maximumStoredLen < stored.length then
    .error (.limit "stored chunk bytes" stored.length expectedKind.maximumStoredLen)
  else if stored.length < envelopeLen then
    .error (.invalid "truncated envelope")
  else if stored.take 8 ≠ magic then
    .error (.invalid "invalid envelope magic")
  else
    let foundKind ← ChunkKind.parse (stored.getD 8 0)
    if foundKind ≠ expectedKind then
      .error (.invalid
        s!"wrong chunk kind: expected {expectedKind.toByte}, found {foundKind.toByte}")
    else if stored.getD 9 0 ≠ codecVersion then
      .error (.invalid s!"unsupported codec version {stored.getD 9 0}")
    else if ofBigEndian ((stored.drop 10).take 2) ≠ 0 then
      .error (.invalid
        s!"unsupported envelope flags 0x{paddedHex 4 (ofBigEndian ((stored.drop 10).take 2))}")
    else
      let payloadLen := ofBigEndian ((stored.drop 12).take 4)
      if payloadLen ≠ stored.length - envelopeLen then
        .error (.invalid
          s!"payload length mismatch: header {payloadLen}, actual {stored.length - envelopeLen}")
      else return stored.drop envelopeLen

def requireSchema (found : UInt16) : CodecResult Unit :=
  if found ≠ payloadSchema then
    .error (.invalid s!"unsupported payload schema {found}")
  else .ok ()

def requirePolicy (label : String) (found expected : UInt16) : CodecResult Unit :=
  if found ≠ expected then
    .error (.invalid s!"unsupported {label} policy {found}")
  else .ok ()

def encodeLeafEntry (entry : LeafEntry) : CodecResult Bytes := do
  validateText "exact path" entry.exactPath maxExactPathBytes
  let _ ← Timestamp.new entry.modified.unixSeconds entry.modified.nanoseconds
  return (← Writer.string entry.exactPath) ++ Writer.u64 entry.sizeBytes ++
    Writer.i64 entry.modified.unixSeconds ++
    Writer.u32 entry.modified.nanoseconds ++ Writer.digest entry.objectId

def encodeLeaf (leaf : ManifestLeaf) : CodecResult Bytes := do
  validateBytes "portable prefix" leaf.portablePrefix maxPrefixBytes
  validateCount "leaf entry count" leaf.entries.length maxLeafEntries
  let summary ← leaf.summary
  let portablePrefix ← Writer.bytes leaf.portablePrefix
  let entryCount ← usizeToU32 "leaf entry count" leaf.entries.length
  let entries ← leaf.entries.mapM encodeLeafEntry
  envelope .leaf (Writer.u16 payloadSchema ++ portablePrefix ++
    Writer.u32 entryCount ++ Writer.summary summary ++ entries.flatten)

def readLeafEntry : Reader LeafEntry := do
  let exactPath ← Reader.string "exact path" maxExactPathBytes
  let sizeBytes ← Reader.u64
  let unixSeconds ← Reader.i64
  let nanoseconds ← Reader.u32
  let modified ← Timestamp.new unixSeconds nanoseconds
  let objectId ← Reader.digest
  return ⟨exactPath, sizeBytes, modified, objectId⟩

def readLeaf : Reader (ManifestLeaf × ManifestSummary) := do
  let schema ← Reader.u16
  requireSchema schema
  let portablePrefix ← Reader.bytes "portable prefix" maxPrefixBytes
  let entryCount ← Reader.count "leaf entry count" maxLeafEntries
  let storedSummary ← Reader.summary
  let entries ← readMany readLeafEntry entryCount
  return (⟨portablePrefix, entries⟩, storedSummary)

def decodeLeaf (storedBytes : Bytes) : CodecResult ManifestLeaf := do
  let payload ← decodeEnvelope storedBytes .leaf
  let (leaf, storedSummary) ← readLeaf.runToEnd payload
  let summary ← leaf.summary
  if summary ≠ storedSummary then
    .error (.invalid "leaf summary does not match entries")
  else return leaf

def manifestKindByte (reference : ManifestRef) : CodecResult UInt8 :=
  match reference.kind with
  | .node => .ok 2
  | .leaf => .ok 3
  | .root => .error (.invalid "manifest child cannot reference a root")

def readManifestKind (value : UInt8) : CodecResult ChunkKind :=
  if value = 2 then .ok .node
  else if value = 3 then .ok .leaf
  else .error (.invalid s!"unknown manifest chunk kind {value}")

def encodeChild (child : ManifestChild) : CodecResult Bytes := do
  return Writer.u8 child.edge ++ Writer.u8 (← manifestKindByte child.child) ++
    Writer.digest child.child.id ++ Writer.summary child.summary

def encodeNode (node : ManifestNode) : CodecResult Bytes := do
  validateBytes "portable prefix" node.portablePrefix maxPrefixBytes
  validateCount "node child count" node.children.length maxNodeChildren
  let summary ← node.summary
  let portablePrefix ← Writer.bytes node.portablePrefix
  let childCount ← usizeToU32 "node child count" node.children.length
  let children ← node.children.mapM encodeChild
  envelope .node (Writer.u16 payloadSchema ++ portablePrefix ++
    Writer.u32 childCount ++ Writer.summary summary ++ children.flatten)

def readChild : Reader ManifestChild := do
  let edge ← Reader.u8
  let kindByte ← Reader.u8
  let kind ← readManifestKind kindByte
  let id ← Reader.digest
  let summary ← Reader.summary
  return ⟨edge, ⟨kind, id⟩, summary⟩

def readNode : Reader (ManifestNode × ManifestSummary) := do
  let schema ← Reader.u16
  requireSchema schema
  let portablePrefix ← Reader.bytes "portable prefix" maxPrefixBytes
  let childCount ← Reader.count "node child count" maxNodeChildren
  let storedSummary ← Reader.summary
  let children ← readMany readChild childCount
  return (⟨portablePrefix, children⟩, storedSummary)

def decodeNode (storedBytes : Bytes) : CodecResult ManifestNode := do
  let payload ← decodeEnvelope storedBytes .node
  let (node, storedSummary) ← readNode.runToEnd payload
  let summary ← node.summary
  if summary ≠ storedSummary then
    .error (.invalid "node summary does not match children")
  else return node

/-- `str::trim`: the Unicode `White_Space` characters at both ends. -/
def isWhiteSpace (value : Char) : Bool :=
  let code := value.toNat
  (9 ≤ code && code ≤ 13) || code == 0x20 || code == 0x85 || code == 0xA0 ||
    code == 0x1680 || (0x2000 ≤ code && code ≤ 0x200A) || code == 0x2028 ||
    code == 0x2029 || code == 0x202F || code == 0x205F || code == 0x3000

def trim (text : String) : String :=
  String.ofList ((text.toList.dropWhile isWhiteSpace).reverse.dropWhile
    isWhiteSpace).reverse

def validateRoot (root : SnapshotRoot) : CodecResult Unit := do
  validateText "checkpoint name" root.checkpointName maxCheckpointNameBytes
  if trim root.checkpointName = "" ∨ trim root.checkpointName ≠ root.checkpointName then
    .error (.invalid "checkpoint name must be non-empty and trimmed")
  else
    validateText "tool version" root.toolVersion maxToolVersionBytes
    let _ ← Timestamp.new root.created.unixSeconds root.created.nanoseconds
    if root.manifest = none ∧ root.summary ≠ .zero then
      .error (.invalid "empty manifest must have an empty summary")
    else return ()

def Writer.parent : Option Digest32 → Bytes
  | none => Writer.u8 0
  | some id => Writer.u8 1 ++ Writer.digest id

def writeOptionalManifestRef : Option ManifestRef → CodecResult Bytes
  | none => return Writer.u8 0
  | some reference => do
      return Writer.u8 (← manifestKindByte reference) ++ Writer.digest reference.id

def encodeRoot (root : SnapshotRoot) : CodecResult Bytes := do
  validateRoot root
  let checkpointName ← Writer.string root.checkpointName
  let toolVersion ← Writer.string root.toolVersion
  let manifest ← writeOptionalManifestRef root.manifest
  envelope .root (Writer.u16 payloadSchema ++ root.projectId.val ++
    Writer.parent root.parent ++ Writer.i64 root.created.unixSeconds ++
    Writer.u32 root.created.nanoseconds ++ checkpointName ++ toolVersion ++
    Writer.u16 trackedScopePolicy ++ Writer.u16 pathKeyPolicy ++
    Writer.u16 contentPolicy ++ manifest ++ Writer.summary root.summary)

def readParent : Reader (Option Digest32) := do
  let value ← Reader.u8
  if value = 0 then return none
  else if value = 1 then return some (← Reader.digest)
  else Reader.fail (.invalid s!"unknown root parent kind {value}")

def readOptionalManifestRef : Reader (Option ManifestRef) := do
  let value ← Reader.u8
  if value = 0 then return none
  else
    let kind ← readManifestKind value
    return some ⟨kind, ← Reader.digest⟩

def readRoot : Reader SnapshotRoot := do
  let schema ← Reader.u16
  requireSchema schema
  let projectId ← Reader.array 16
  let parent ← readParent
  let unixSeconds ← Reader.i64
  let nanoseconds ← Reader.u32
  let created ← Timestamp.new unixSeconds nanoseconds
  let checkpointName ← Reader.string "checkpoint name" maxCheckpointNameBytes
  let toolVersion ← Reader.string "tool version" maxToolVersionBytes
  let scope ← Reader.u16
  requirePolicy "tracked scope" scope trackedScopePolicy
  let pathKey ← Reader.u16
  requirePolicy "path key" pathKey pathKeyPolicy
  let content ← Reader.u16
  requirePolicy "content" content contentPolicy
  let manifest ← readOptionalManifestRef
  let summary ← Reader.summary
  return ⟨projectId, parent, created, checkpointName, toolVersion, manifest, summary⟩

def decodeRoot (storedBytes : Bytes) : CodecResult SnapshotRoot := do
  let payload ← decodeEnvelope storedBytes .root
  let root ← readRoot.runToEnd payload
  if root.manifest = none ∧ root.summary ≠ .zero then
    .error (.invalid "empty manifest has a non-empty summary")
  else
    validateRoot root
    return root

end CheckPo
