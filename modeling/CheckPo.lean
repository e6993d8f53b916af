import CheckPo.AggregationDiscovery
import CheckPo.AggregationSound
import CheckPo.AncestorConflicts
import CheckPo.AnchoredRemoval
import CheckPo.BeforeStateChecks
import CheckPo.BigEndian
import CheckPo.BinarySearch
import CheckPo.ByteReader
import CheckPo.ByteSlices
import CheckPo.CanonicalManifest
import CheckPo.ChangeTree
import CheckPo.ChangeTreeBuild
import CheckPo.ChangeTreeRows
import CheckPo.ChangeTreeSiblings
import CheckPo.CheckpointDiff
import CheckPo.CheckpointNameRuns
import CheckPo.CheckpointNames
import CheckPo.CleanupMoves
import CheckPo.CleanupPlan
import CheckPo.CleanupRuns
import CheckPo.CleanupState
import CheckPo.CompactJournal
import CheckPo.CompactNames
import CheckPo.CompactRescue
import CheckPo.DiscardExpansion
import CheckPo.DiscardOperations
import CheckPo.DiscardPreview
import CheckPo.DiscardScope
import CheckPo.DiscardShape
import CheckPo.Durable
import CheckPo.ExceptRules
import CheckPo.FileTree
import CheckPo.FinsetClosure
import CheckPo.GarbageAnalysis
import CheckPo.GarbageCandidates
import CheckPo.GarbageCollection
import CheckPo.GarbageMarks
import CheckPo.GarbageNodes
import CheckPo.GarbageRuns
import CheckPo.GarbageSweep
import CheckPo.GrowingInventory
import CheckPo.GuardedRuns
import CheckPo.HexIds
import CheckPo.Hoare
import CheckPo.InventoryAtomic
import CheckPo.InventoryCodec
import CheckPo.InventoryCodecCanonical
import CheckPo.InventoryLineage
import CheckPo.InventoryMutation
import CheckPo.InventoryRuns
import CheckPo.InventorySets
import CheckPo.InventoryStore
import CheckPo.InventoryTransition
import CheckPo.InventoryWritten
import CheckPo.JournalRecord
import CheckPo.JsonLengths
import CheckPo.JsonText
import CheckPo.LongPathChain
import CheckPo.LongPaths
import CheckPo.ManifestBuild
import CheckPo.ManifestBuilt
import CheckPo.ManifestCache
import CheckPo.ManifestChecks
import CheckPo.ManifestComplete
import CheckPo.ManifestDistinct
import CheckPo.ManifestGraph
import CheckPo.ManifestIteration
import CheckPo.ManifestLookup
import CheckPo.ManifestOrder
import CheckPo.ManifestRead
import CheckPo.ManifestReading
import CheckPo.ManifestSound
import CheckPo.ManifestSplit
import CheckPo.ManifestTotals
import CheckPo.ManifestUnique
import CheckPo.ManifestWalk
import CheckPo.ManifestWriter
import CheckPo.MerkleCodec
import CheckPo.MerkleCodecCanonical
import CheckPo.MerkleCodecRoundTrip
import CheckPo.MultiplicityFlow
import CheckPo.Obligations
import CheckPo.PendingTransactions
import CheckPo.PlanBuilding
import CheckPo.PlanFitting
import CheckPo.PlanTopology
import CheckPo.PlanValidation
import CheckPo.ProjectFiles
import CheckPo.ProjectPaths
import CheckPo.RecoveryConflicts
import CheckPo.RecoveryRescue
import CheckPo.ReferenceAggregation
import CheckPo.ReferenceCounts
import CheckPo.RemovalProjection
import CheckPo.RemovalRuns
import CheckPo.RepositoryFiles
import CheckPo.RescueRecord
import CheckPo.SnapshotRoots
import CheckPo.SnapshotRoundTrip
import CheckPo.SnapshotStore
import CheckPo.SortedShards
import CheckPo.SyncBatch
import CheckPo.TrackedPath
import CheckPo.TransactionApplied
import CheckPo.TransactionApply
import CheckPo.TransactionCleanup
import CheckPo.TransactionJournal
import CheckPo.TransactionOperations
import CheckPo.TransactionPlan
import CheckPo.TransactionPublished
import CheckPo.TransactionRecovered
import CheckPo.TransactionRefilling
import CheckPo.TransactionRollback
import CheckPo.TransactionRuns
import CheckPo.TransactionStanding
import CheckPo.TransactionState
import CheckPo.TransactionSteps
import CheckPo.TransactionUndoing
import CheckPo.TreeListing
import CheckPo.TreeRemoval
import CheckPo.Verification
import CheckPo.VerificationSound
import CheckPo.VerifiedLoading
import CheckPo.WorkingTree
