import AdGraphDb.Foundation.HashMap
import AdGraphDb.Foundation.Updates
import AdGraphDb.Foundation.Cursor
import AdGraphDb.Foundation.Spans
import AdGraphDb.Foundation.Float64
import AdGraphDb.Foundation.Action
import AdGraphDb.Foundation.Secondary
import AdGraphDb.Foundation.Simulation
import AdGraphDb.Foundation.Mutex
import AdGraphDb.Foundation.FileSystem
import AdGraphDb.Foundation.Projection
import AdGraphDb.Foundation.Allocation
import AdGraphDb.Foundation.Loops
import AdGraphDb.Foundation.Hops
import AdGraphDb.Foundation.Walks
import AdGraphDb.Foundation.Relaxation
import AdGraphDb.Foundation.MinHeap
import AdGraphDb.Core.Graph
import AdGraphDb.Storage.Codec
import AdGraphDb.Storage.Checksum
import AdGraphDb.Storage.CodecRoundTrip
import AdGraphDb.Storage.Replay
import AdGraphDb.Storage.Frames
import AdGraphDb.Storage.Log
import AdGraphDb.Storage.ReplaySafety
import AdGraphDb.Storage.Brackets
import AdGraphDb.Storage.Port
import AdGraphDb.Storage.BinaryFile
import AdGraphDb.Storage.Durability
import AdGraphDb.Storage.Layout
import AdGraphDb.Storage.Visits
import AdGraphDb.Storage.Framing
import AdGraphDb.Storage.Transactions
import AdGraphDb.Storage.Pending
import AdGraphDb.Foundation.Bracketed
import AdGraphDb.Storage.SkippedRecords
import AdGraphDb.Storage.Corruption
import AdGraphDb.Storage.Compaction
import AdGraphDb.Storage.ShortestLog
import AdGraphDb.Storage.TornRecord
import AdGraphDb.Storage.Recovery
import AdGraphDb.Storage.UnfinishedBracket
import AdGraphDb.Foundation.Text
import AdGraphDb.Foundation.Characters
import AdGraphDb.Foundation.Tokens
import AdGraphDb.Storage.JsonFile
import AdGraphDb.Storage.JsonLog
import AdGraphDb.Storage.JsonStores
import AdGraphDb.Storage.JsonReadBack
import AdGraphDb.Storage.JsonInterrupted
import AdGraphDb.Storage.Spec
import AdGraphDb.Storage.Faults
import AdGraphDb.Storage.OnDisk
import AdGraphDb.Cache.Port
import AdGraphDb.Cache.Lru
import AdGraphDb.Cache.Recency
import AdGraphDb.Core.PlainGraph
import AdGraphDb.Engine.AdjacencyList
import AdGraphDb.Engine.Represents
import AdGraphDb.Engine.Removal
import AdGraphDb.Engine.Mirror
import AdGraphDb.Algorithms.Bfs
import AdGraphDb.Algorithms.Dfs
import AdGraphDb.Algorithms.Dijkstra
import AdGraphDb.Algorithms.ShortestPath
import AdGraphDb.Algorithms.DijkstraF64
import AdGraphDb.Algorithms.Traversals
import AdGraphDb.Query.Ast
import AdGraphDb.Query.Comparison
import AdGraphDb.Query.Condition
import AdGraphDb.Query.SimpleQuery
import AdGraphDb.Query.SimpleGrammar
import AdGraphDb.Query.SimpleText
import AdGraphDb.Query.SimpleSafety
import AdGraphDb.Query.CypherLite
import AdGraphDb.Query.Lexemes
import AdGraphDb.Query.CypherGrammar
import AdGraphDb.Query.CypherSafety
import AdGraphDb.Query.BothLanguages
import AdGraphDb.Query.Conjunction
import AdGraphDb.Query.Headers
import AdGraphDb.Index.Label
import AdGraphDb.Index.OrderedF64
import AdGraphDb.Index.Property
import AdGraphDb.Index.Lookup
import AdGraphDb.Index.Histories
import AdGraphDb.Index.Complete
import AdGraphDb.Query.Planner
import AdGraphDb.Query.PlanCost
import AdGraphDb.Query.Executor
import AdGraphDb.Query.PlanFilter
import AdGraphDb.Transaction.Staging
import AdGraphDb.Database.Config
import AdGraphDb.Database.Layered
import AdGraphDb.Database.Context
import AdGraphDb.Database.Spec
import AdGraphDb.Database.Interrupted
import AdGraphDb.Database.Commit
import AdGraphDb.Database.Coherence
import AdGraphDb.Database.Sessions
import AdGraphDb.Database.Transparency
import AdGraphDb.Database.Indexed
import AdGraphDb.Database.Sync
import AdGraphDb.Database.StorageErrors
import AdGraphDb.Database.Open
import AdGraphDb.Database.Refinement
import AdGraphDb.Database.CrashPoints
import AdGraphDb.Database.FailedCompaction
import AdGraphDb.Database.Plans
import AdGraphDb.Database.Queries
import AdGraphDb.Database.Statistics
import AdGraphDb.Database.Requests
import AdGraphDb.Database.FailedCommit
import AdGraphDb.Database.Atomic
import AdGraphDb.Database.Serial
import AdGraphDb.Database.Interchange
import AdGraphDb.Database.CommitLog
import AdGraphDb.Server.Lines
import AdGraphDb.Server.Protocol
import AdGraphDb.Server.Shared
import AdGraphDb.Server.Framing
import AdGraphDb.Server.Repl
