import MoDb.Lib.WriteLog
import MoDb.Lib.Effect
import MoDb.Lib.RecordStore
import MoDb.Storage.PageFile
import MoDb.Tx.WalBytes
import MoDb.Tx.BoundedRecovery
import MoDb.Tx.WalCut
import MoDb.Object.Lifecycle
import MoDb.Object.Rollback
import MoDb.Query.Projected
import MoDb.Query.Generic
import MoDb.Repl.BatchedApply
import MoDb.Repl.Retention
import MoDb.Repl.Checksum
import MoDb.Store.Collection
import MoDb.Store.KeyOrder
import MoDb.Store.ObjectCodec
import MoDb.Store.Cascade
import MoDb.Net.RingSpace
import MoDb.Net.LinkLifecycle
import MoDb.Net.WireRoundTrip
import MoDb.Net.Cancellation
import MoDb.Net.ProxySession
import MoDb.Proxy.Mediation
import MoDb.Proxy.AuditTrail
import MoDb.Proxy.StreamLimit
import MoDb.Storage.SlottedCapacity
import MoDb.Lib.Chain
import MoDb.Query.TopK
import MoDb.Index.TreeCheck
import MoDb.Storage.CachedFile
import MoDb.Store.CatalogStore
import MoDb.Store.CollectionCounts
import MoDb.Store.IdentityMigration
import MoDb.Net.RleBlocks
import MoDb.Net.ReplicationRoundTrip
import MoDb.Ops.ValueCodec
import MoDb.Ops.JsonRoundTrip
import MoDb.Store.IndexDirectoryRuns
import MoDb.Storage.HeapRepair
import MoDb.Store.ChainReaders
import MoDb.Store.PeekCache
import MoDb.Graph.DepthFirst
import MoDb.Graph.ShortestPath
import MoDb.Graph.TopologicalSort
import MoDb.Graph.Components
import MoDb.Store.HeapStore
import MoDb.Storage.BufferPool
import MoDb.Proxy.RateLimit
import MoDb.Proxy.TokenHash
import MoDb.Net.RingPeek
import MoDb.Net.LinkRoundTrip
