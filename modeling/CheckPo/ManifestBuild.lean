/-
The writer of the compressed-radix manifest: entries are sorted by portable key
and recursively partitioned by longest common prefix and next byte; every leaf
and node is stored once, under its content id.
-/
import CheckPo.TrackedPath

namespace CheckPo

def manifestLeafTargetBytes : Nat := 32 * 1024
def maxManifestDepth : Nat := 1024

/-- The writer's entries have the fields of the codec's; the source converts
between the two types field by field. -/
abbrev ManifestEntry := LeafEntry

structure KeyedEntry where
  key : Bytes
  entry : ManifestEntry
deriving DecidableEq

/-- Stored chunks under their references (`BTreeMap<ManifestRef, Vec<u8>>`). -/
abbrev Chunks := List (ManifestRef × Bytes)

def Chunks.get (chunks : Chunks) (reference : ManifestRef) : Option Bytes :=
  (chunks.find? fun chunk => chunk.1 == reference).map Prod.snd

structure BuiltManifest where
  root : Option ManifestRef
  summary : ManifestSummary
  chunks : Chunks
deriving DecidableEq

/-- A chunk source answers a reference with the stored bytes or an error. -/
abbrev ManifestChunkSource := ManifestRef → SnapshotV2Result Bytes

def BuiltManifest.loadManifestChunk (built : BuiltManifest) : ManifestChunkSource :=
  fun reference => orError (Chunks.get built.chunks reference)
    (.source s!"missing {reference.kind.debugName} chunk {reference.id.toHex}")

def commonPrefixLen (left right : Bytes) : Nat :=
  ((left.zip right).takeWhile fun pair => pair.1 == pair.2).length

/-- The byte after a prefix; zero also stands for the end of the key. -/
def edgeAt (key : Bytes) (prefixLen : Nat) : UInt8 := key.getD prefixLen 0

def isPathAncestor (parent child : Bytes) : Bool :=
  decide (parent.length < child.length) && parent.isPrefixOf child &&
    child[parent.length]? == some 47

section Keys

variable (tables : UnicodeTables)

/-- How `{:?}` writes a character of a string. -/
def escapeDebug (character : Char) : List Char :=
  if character.toNat = 0 then ['\\', '0']
  else if character.toNat = 9 then ['\\', 't']
  else if character.toNat = 10 then ['\\', 'n']
  else if character.toNat = 13 then ['\\', 'r']
  else if character = '"' then ['\\', '"']
  else if character = '\\' then ['\\', '\\']
  else if tables.debugEscapes character = true then
    ['\\', 'u', '\x7b'] ++ (Nat.toDigits 16 character.toNat ++ ['\x7d'])
  else [character]

/-- The quoted text of a path in an error message. -/
def quoted (text : String) : String :=
  String.ofList (['"'] ++ (text.toList.flatMap (escapeDebug tables) ++ ['"']))

/-- The check of one adjacent pair; the sort leaves no pair out of order. -/
def validateAdjacent (previous current : KeyedEntry) : SnapshotV2Result Unit :=
  let first := quoted tables previous.entry.exactPath
  let second := quoted tables current.entry.exactPath
  if previous.key = current.key then
    .error (.invalid s!"portable path collision between {first} and {second}")
  else if current.key < previous.key then
    .error (.invalid s!"portable path keys are not strictly increasing: {first} before {second}")
  else if isPathAncestor previous.key current.key = true then
    .error (.invalid s!"file/directory ancestor conflict between {first} and {second}")
  else .ok ()

def validateOrderedKeys : List KeyedEntry → SnapshotV2Result Unit
  | previous :: current :: rest => do
      validateAdjacent tables previous current
      validateOrderedKeys (current :: rest)
  | _ => .ok ()

end Keys

def entrySummary (entry : ManifestEntry) : SnapshotV2Result ManifestSummary :=
  if (utf8 entry.exactPath).length < 2 ^ 64 then
    .ok ⟨1, entry.sizeBytes, UInt64.ofNat (utf8 entry.exactPath).length⟩
  else .error (.invalid "exact path length overflow")

/-- The running totals before each entry and after the last. -/
def summaryPrefixes (total : ManifestSummary) :
    List KeyedEntry → SnapshotV2Result (List ManifestSummary)
  | [] => .ok [total]
  | keyed :: rest => do
      let summary ← entrySummary keyed.entry
      let next ← total.checkedAdd summary
      return total :: (← summaryPrefixes next rest)

def rangeSummary (prefixes : List ManifestSummary) (start stop : Nat) :
    SnapshotV2Result ManifestSummary := do
  let before ← orError prefixes[start]?
    (.invalid "manifest summary range start is invalid")
  let after ← orError prefixes[stop]?
    (.invalid "manifest summary range end is invalid")
  let entryCount ← orError (checkedSub after.entryCount before.entryCount)
    (.invalid "manifest entry summary is not monotonic")
  let logicalSizeBytes ← orError
    (checkedSub after.logicalSizeBytes before.logicalSizeBytes)
    (.invalid "manifest size summary is not monotonic")
  let totalExactPathBytes ← orError
    (checkedSub after.totalExactPathBytes before.totalExactPathBytes)
    (.invalid "manifest path summary is not monotonic")
  return ⟨entryCount, logicalSizeBytes, totalExactPathBytes⟩

/-- A `usize` computation that reports overflow; `usize` has 64 bits. -/
def checkedUsize (value : Nat) : SnapshotV2Result Nat :=
  if value < 2 ^ 64 then .ok value else .error (.invalid "leaf length overflow")

def leafEncodedLen (portablePrefix : Bytes) (summary : ManifestSummary) :
    SnapshotV2Result Nat := do
  let fixed ← checkedUsize (16 + (2 + 4 + portablePrefix.length + 4 + 24))
  let fields ← checkedUsize (summary.entryCount.toNat * 56)
  let value ← checkedUsize (fixed + fields)
  checkedUsize (value + summary.totalExactPathBytes.toNat)

def sameEdge (prefixLen : Nat) (first keyed : KeyedEntry) : Bool :=
  edgeAt keyed.key prefixLen == edgeAt first.key prefixLen

/-- Split a range into the runs of entries that share the byte at `prefixLen`:
each run takes the entries up to the first with another edge. -/
def splitChildren (prefixLen : Nat) : List KeyedEntry → List (List KeyedEntry)
  | [] => []
  | first :: rest =>
      (first :: rest.takeWhile (sameEdge prefixLen first)) ::
        splitChildren prefixLen (rest.dropWhile (sameEdge prefixLen first))
termination_by entries => entries.length
decreasing_by
  exact Nat.lt_succ_of_le (List.dropWhile_sublist _).length_le

/-- The edge of a nonempty run. -/
def rangeEdge (prefixLen : Nat) (range : List KeyedEntry) : UInt8 :=
  edgeAt (range.head?.map KeyedEntry.key |>.getD []) prefixLen

section Hash

variable (blake3 : Bytes → Digest32)

def insertChunk (kind : ChunkKind) (bytes : Bytes) (chunks : Chunks) :
    SnapshotV2Result (ManifestRef × Chunks) := do
  let id ← manifestId blake3 kind bytes
  let reference ← ManifestRef.new kind id
  match Chunks.get chunks reference with
  | some existing =>
      if existing ≠ bytes then
        .error (.invalid
          s!"domain hash collision for {kind.debugName} {reference.id.toHex}")
      else return (reference, chunks)
  | none => return (reference, chunks ++ [(reference, bytes)])

structure BuiltRange where
  reference : ManifestRef
  summary : ManifestSummary
deriving DecidableEq

/-- The children of a split, built from left to right; `start` is the index of
the next run's first entry. -/
def buildChildren
    (build : Nat → List KeyedEntry → Chunks → SnapshotV2Result (BuiltRange × Chunks))
    (prefixLen : Nat) : Nat → List (List KeyedEntry) → Chunks →
    SnapshotV2Result (List ManifestChild × Chunks)
  | _, [], chunks => .ok ([], chunks)
  | start, range :: ranges, chunks => do
      let (child, chunks) ← build start range chunks
      let (children, chunks) ← buildChildren build prefixLen
        (start + range.length) ranges chunks
      return (⟨rangeEdge prefixLen range, child.reference, child.summary⟩ :: children,
        chunks)

/-- `build_range` on the entries `range` that begin at index `start`.  The
recursion counts down the levels left, `MAX_MANIFEST_DEPTH + 1 - depth`: the
source's depth check fails exactly when none is left. -/
def buildRange (prefixes : List ManifestSummary) (leafTargetBytes : Nat) :
    Nat → Nat → List KeyedEntry → Chunks → SnapshotV2Result (BuiltRange × Chunks)
  | 0, _, _, _ => .error (.invalid
      s!"manifest exceeds maximum depth {maxManifestDepth}")
  | levels + 1, start, range, chunks => do
      let first ← orError range.head? (.invalid "cannot build an empty chunk")
      let last := range.getLastD first
      let prefixLen := commonPrefixLen first.key last.key
      let portablePrefix := first.key.take prefixLen
      let summary ← rangeSummary prefixes start (start + range.length)
      let leafLen ← leafEncodedLen portablePrefix summary
      if leafLen ≤ leafTargetBytes ∨ range.length = 1 then
        let leafBytes ← encodeLeaf ⟨portablePrefix, range.map KeyedEntry.entry⟩
        let (reference, chunks) ← insertChunk blake3 .leaf leafBytes chunks
        return (⟨reference, summary⟩, chunks)
      else
        let (children, chunks) ← buildChildren
          (buildRange prefixes leafTargetBytes levels) prefixLen start
          (splitChildren prefixLen range) chunks
        if children.length < 2 then
          .error (.invalid "canonical radix split produced a unary node")
        else
          let nodeBytes ← encodeNode ⟨portablePrefix, children⟩
          let (reference, chunks) ← insertChunk blake3 .node nodeBytes chunks
          return (⟨reference, summary⟩, chunks)

variable (tables : UnicodeTables)

def keyedEntry (entry : ManifestEntry) : SnapshotV2Result KeyedEntry := do
  return ⟨← portablePathKeyV1 tables entry.exactPath, entry⟩

/-- `sort_by` on the keys; both sorts are stable. -/
def sortByKey (entries : List KeyedEntry) : List KeyedEntry :=
  entries.mergeSort fun left right => decide (left.key ≤ right.key)

def buildManifestWithLeafTarget (entries : List ManifestEntry)
    (leafTargetBytes : Nat) : SnapshotV2Result BuiltManifest := do
  if entries = [] then return ⟨none, .zero, []⟩
  else
    let keyed ← entries.mapM (keyedEntry tables)
    let keyed := sortByKey keyed
    validateOrderedKeys tables keyed
    let prefixes ← summaryPrefixes .zero keyed
    let (root, chunks) ← buildRange blake3 prefixes leafTargetBytes
      (maxManifestDepth + 1) 0 keyed []
    return ⟨some root.reference, root.summary, chunks⟩

def buildManifest (entries : List ManifestEntry) : SnapshotV2Result BuiltManifest :=
  buildManifestWithLeafTarget blake3 tables entries manifestLeafTargetBytes

end Hash

end CheckPo
