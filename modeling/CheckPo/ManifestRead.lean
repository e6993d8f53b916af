/-
The readers of a stored manifest: validation with a cache of already verified
subtrees, and iteration in portable-path order.
-/
import CheckPo.ManifestBuild

namespace CheckPo

/-- One validation traversal visits, and one cache holds, at most this many
chunks. -/
def maxManifestValidationChunks : Nat := 100000
/-- The bound on the estimated heap of one cache. -/
def maxManifestValidationCacheBytes : Nat := 64 * 1024 * 1024

inductive DecodedChunk where
  | node (node : ManifestNode) (bytes : Bytes)
  | leaf (leaf : ManifestLeaf) (bytes : Bytes)

structure ValidationInfo where
  summary : ManifestSummary
  firstKey : Bytes
  lastKey : Bytes
  maximumRelativeDepth : Nat
deriving DecidableEq

structure ManifestValidationCache where
  validated : List (ManifestRef × ValidationInfo)
  estimatedHeapBytes : Nat

namespace ManifestValidationCache

def empty : ManifestValidationCache := ⟨[], 0⟩

def len (cache : ManifestValidationCache) : Nat := cache.validated.length

def get (cache : ManifestValidationCache) (reference : ManifestRef) :
    Option ValidationInfo :=
  (cache.validated.find? fun pair => pair.1 == reference).map Prod.snd

def validatedReferences (cache : ManifestValidationCache) : List ManifestRef :=
  cache.validated.map Prod.fst

end ManifestValidationCache

/-- `size_of` of the reference (33) and of the info (80), the two keys, and 64
for the tree node.  A cloned key has the capacity of its length. -/
def ValidationInfo.estimatedBytes (info : ValidationInfo) : Nat :=
  33 + 80 + info.firstKey.length + info.lastKey.length + 64

/-- The references visited for the current root and the shared cache.  Both
survive a failure: the cache keeps what was verified before it. -/
structure ValidationState where
  visited : List ManifestRef
  cache : ManifestValidationCache

abbrev ValidateM := ExceptT SnapshotV2Error (StateM ValidationState)

section Hash

variable (blake3 : Bytes → Digest32)

def loadChunk (source : ManifestChunkSource) (reference : ManifestRef) :
    SnapshotV2Result DecodedChunk := do
  let bytes ← source reference
  verifyManifestId blake3 reference bytes
  match reference.kind with
  | .node => return .node (← decodeNode bytes) bytes
  | .leaf => return .leaf (← decodeLeaf bytes) bytes
  | .root => .error (.invalid "manifest points to a snapshot root")

variable (tables : UnicodeTables)

def validateLeaf (leaf : ManifestLeaf) (storedBytes : Bytes) :
    SnapshotV2Result ValidationInfo := do
  let canonicalBytes ← encodeLeaf leaf
  if canonicalBytes ≠ storedBytes then
    .error (.invalid "leaf has a non-canonical binary encoding")
  else if leaf.entries = [] then
    .error (.invalid "empty manifests must not contain an empty leaf")
  else if manifestLeafTargetBytes < storedBytes.length ∧ leaf.entries.length ≠ 1 then
    .error (.invalid s!"leaf exceeds {manifestLeafTargetBytes} byte target")
  else
    let keyed ← leaf.entries.mapM (keyedEntry tables)
    validateOrderedKeys tables keyed
    let first ← orError keyed.head? (.invalid "non-empty checked")
    let last := keyed.getLastD first
    let canonicalPrefixLen := commonPrefixLen first.key last.key
    if leaf.portablePrefix ≠ first.key.take canonicalPrefixLen then
      .error (.invalid "leaf prefix is not the exact entry LCP")
    else return ⟨← leaf.summary, first.key, last.key, 0⟩

/-- What the loop over a node's children carries. -/
structure NodeProgress where
  firstKey : Option Bytes
  lastKey : Option Bytes
  summary : ManifestSummary
  maximumRelativeDepth : Nat

def NodeProgress.start : NodeProgress := ⟨none, none, .zero, 0⟩

/-- The checks of a child against the previous one. -/
def checkChildOrder (previous : Option Bytes) (firstKey : Bytes) :
    SnapshotV2Result Unit :=
  match previous with
  | none => .ok ()
  | some previous =>
      if firstKey ≤ previous then
        .error (.invalid "manifest child ranges overlap or are unordered")
      else if isPathAncestor previous firstKey = true then
        .error (.invalid "manifest contains a file/directory ancestor conflict")
      else .ok ()

def advanceNode (node : ManifestNode) (child : ManifestChild)
    (info : ValidationInfo) (progress : NodeProgress) :
    SnapshotV2Result NodeProgress := do
  if info.summary ≠ child.summary then
    .error (.invalid "node child summary mismatch")
  else if node.portablePrefix.isPrefixOf info.firstKey = false ∨
      edgeAt info.firstKey node.portablePrefix.length ≠ child.edge ∨
      edgeAt info.lastKey node.portablePrefix.length ≠ child.edge then
    .error (.invalid "child key range does not match its radix edge")
  else
    checkChildOrder progress.lastKey info.firstKey
    let summary ← progress.summary.checkedAdd info.summary
    return ⟨some (progress.firstKey.getD info.firstKey), some info.lastKey, summary,
      max progress.maximumRelativeDepth (info.maximumRelativeDepth + 1)⟩

def finishNode (node : ManifestNode) (progress : NodeProgress) :
    SnapshotV2Result ValidationInfo := do
  let firstKey ← orError progress.firstKey (.invalid "node has at least two children")
  let lastKey ← orError progress.lastKey (.invalid "node has at least two children")
  let canonicalPrefixLen := commonPrefixLen firstKey lastKey
  if node.portablePrefix ≠ firstKey.take canonicalPrefixLen then
    .error (.invalid "node prefix is not the exact descendant LCP")
  else
    let leafLen ← leafEncodedLen node.portablePrefix progress.summary
    if leafLen ≤ manifestLeafTargetBytes then
      .error (.invalid
        "node is non-canonical because it can be flattened into one leaf")
    else return ⟨progress.summary, firstKey, lastKey, progress.maximumRelativeDepth⟩

def edgesIncreasing : List ManifestChild → Bool
  | left :: right :: rest =>
      decide (left.edge < right.edge) && edgesIncreasing (right :: rest)
  | _ => true

/-- The checks of a node before its children are read. -/
def checkNode (node : ManifestNode) (storedBytes : Bytes) : SnapshotV2Result Unit := do
  let encoded ← encodeNode node
  if encoded ≠ storedBytes then
    .error (.invalid "node has a non-canonical binary encoding")
  else if node.children.length < 2 then
    .error (.invalid "canonical node must contain at least two children")
  else if edgesIncreasing node.children = false then
    .error (.invalid "node edges are not strictly increasing")
  else .ok ()

def validateChildren (validate : ManifestRef → ValidateM ValidationInfo)
    (node : ManifestNode) : List ManifestChild → NodeProgress → ValidateM NodeProgress
  | [], progress => pure progress
  | child :: rest, progress => do
      let info ← validate child.child
      let progress ← (advanceNode node child info progress : SnapshotV2Result _)
      validateChildren validate node rest progress

/-- Record a visit; a second visit of the same chunk is an error. -/
def visitChunk (reference : ManifestRef) : ValidateM Unit := do
  let state ← get
  if maxManifestValidationChunks ≤ state.visited.length then
    throw (.invalid
      s!"manifest exceeds maximum validated chunk count {maxManifestValidationChunks}")
  else if reference ∈ state.visited then
    throw (.invalid
      s!"cycle or duplicate manifest range at {reference.kind.debugName} {reference.id.toHex}")
  else set { state with visited := reference :: state.visited }

def cacheChunk (reference : ManifestRef) (info : ValidationInfo) : ValidateM Unit := do
  let state ← get
  let cache := state.cache
  if (cache.get reference).isSome then return ()
  else if maxManifestValidationChunks ≤ cache.len then
    throw (.invalid
      s!"manifest validation cache exceeds {maxManifestValidationChunks} chunks")
  else if maxManifestValidationCacheBytes <
      cache.estimatedHeapBytes + info.estimatedBytes then
    throw (.invalid
      s!"manifest validation cache exceeds {maxManifestValidationCacheBytes} bytes")
  else set { state with cache :=
    ⟨(reference, info) :: cache.validated,
      cache.estimatedHeapBytes + info.estimatedBytes⟩ }

/-- `validate_subtree`, counting down the levels left as `buildRange` does: at
`depth` there are `MAX_MANIFEST_DEPTH + 1 - depth` of them. -/
def validateSubtree (source : ManifestChunkSource) :
    Nat → ManifestRef → ValidateM ValidationInfo
  | 0, _ => throw (.invalid s!"manifest exceeds maximum depth {maxManifestDepth}")
  | levels + 1, reference => do
      visitChunk reference
      let state ← get
      match state.cache.get reference with
      | some info =>
          if levels < info.maximumRelativeDepth then
            throw (.invalid s!"manifest exceeds maximum depth {maxManifestDepth}")
          else return info
      | none =>
          let chunk ← (loadChunk blake3 source reference : SnapshotV2Result _)
          let info ← match chunk with
            | .leaf leaf storedBytes =>
                (validateLeaf tables leaf storedBytes : SnapshotV2Result _)
            | .node node storedBytes => do
                (checkNode node storedBytes : SnapshotV2Result _)
                let progress ← validateChildren (validateSubtree source levels)
                  node node.children .start
                (finishNode node progress : SnapshotV2Result _)
          cacheChunk reference info
          return info

/-- `validate_manifest_cached`: the result and the cache afterwards. -/
def validateManifestCached (source : ManifestChunkSource)
    (root : Option ManifestRef) (expectedSummary : ManifestSummary)
    (cache : ManifestValidationCache) :
    SnapshotV2Result Unit × ManifestValidationCache :=
  match root with
  | none =>
      if expectedSummary ≠ .zero then
        (.error (.invalid "empty root has a non-empty summary"), cache)
      else (.ok (), cache)
  | some root =>
      match validateSubtree blake3 tables source (maxManifestDepth + 1) root
          ⟨[], cache⟩ with
      | (.error error, state) => (.error error, state.cache)
      | (.ok info, state) =>
          if info.summary ≠ expectedSummary then
            (.error (.invalid "root manifest summary mismatch"), state.cache)
          else (.ok (), state.cache)

/-- Validation of one root on its own, with an empty cache. -/
def validateManifest (source : ManifestChunkSource) (root : Option ManifestRef)
    (expectedSummary : ManifestSummary) : SnapshotV2Result Unit :=
  (validateManifestCached blake3 tables source root expectedSummary .empty).1

/-! Iteration. -/

structure ManifestIter where
  pending : List ManifestRef
  visited : List ManifestRef
  leafEntries : List LeafEntry
  failed : Bool

/-- `manifest_iter`; the top of the `pending` stack is the head of the list. -/
def manifestIter (root : Option ManifestRef) : ManifestIter :=
  ⟨root.toList, [], [], false⟩

/-- One turn of the loop in `next`: an item with the state after it, the end, or
the state with which the loop goes on. -/
inductive IterTurn where
  | item (item : SnapshotV2Result ManifestEntry) (next : ManifestIter)
  | done
  | again (next : ManifestIter)

def ManifestIter.turn (source : ManifestChunkSource) (iter : ManifestIter) : IterTurn :=
  match iter.leafEntries with
  | entry :: rest => .item (.ok entry) { iter with leafEntries := rest }
  | [] =>
      match iter.pending with
      | [] => .done
      | reference :: pending =>
          if reference ∈ iter.visited then
            .item (.error (.invalid
              s!"cycle or duplicate manifest range at {reference.kind.debugName} {reference.id.toHex}"))
              { iter with pending := pending, failed := true }
          else
            let visited := reference :: iter.visited
            match loadChunk blake3 source reference with
            | .ok (.leaf leaf _) =>
                .again { iter with pending, visited, leafEntries := leaf.entries }
            | .ok (.node node _) =>
                .again { iter with
                  pending := node.children.map ManifestChild.child ++ pending, visited }
            | .error error =>
                .item (.error error) { iter with pending, visited, failed := true }

/-- `next`, with a bound on the turns of its loop; `none` means the bound was
too small. -/
def ManifestIter.next (source : ManifestChunkSource) :
    Nat → ManifestIter → Option (Option (SnapshotV2Result ManifestEntry) × ManifestIter)
  | 0, _ => none
  | turns + 1, iter =>
      if iter.failed then some (none, iter)
      else match iter.turn blake3 source with
        | .item item next => some (some item, next)
        | .done => some (none, iter)
        | .again next => ManifestIter.next source turns next

/-- `collect::<Result<Vec<_>>>`: every item up to the first error. -/
def ManifestIter.collect (source : ManifestChunkSource) (turns : Nat) :
    Nat → ManifestIter → Option (SnapshotV2Result (List ManifestEntry))
  | 0, _ => none
  | items + 1, iter =>
      match iter.next blake3 source turns with
      | none => none
      | some (none, _) => some (.ok [])
      | some (some (.error error), _) => some (.error error)
      | some (some (.ok entry), next) =>
          match ManifestIter.collect source turns items next with
          | some (.ok entries) => some (.ok (entry :: entries))
          | other => other

end Hash

end CheckPo
