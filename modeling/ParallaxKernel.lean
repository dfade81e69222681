import ParallaxKernel.Lib.Json
import ParallaxKernel.Lib.Transaction
import ParallaxKernel.Lib.KeyedList
import ParallaxKernel.Lib.ColumnSweep
import ParallaxKernel.Lib.Cut
import ParallaxKernel.Lib.TopK
import ParallaxKernel.Lib.Like
import ParallaxKernel.Lib.DateTime
import ParallaxKernel.Store.Schema
import ParallaxKernel.Store.Hashing
import ParallaxKernel.Store.Transitions
import ParallaxKernel.Store.Events
import ParallaxKernel.Store.Review
import ParallaxKernel.Store.Ingest
import ParallaxKernel.Store.Replay
import ParallaxKernel.Store.Effect
import ParallaxKernel.Store.Rebuild
import ParallaxKernel.Store.Runs
import ParallaxKernel.Store.Backfill
import ParallaxKernel.Store.Lifecycle
import ParallaxKernel.Store.LogCompleteness
import ParallaxKernel.Store.Dedup
import ParallaxKernel.Server.IngestRoutes
import ParallaxKernel.Router.DualRead
import ParallaxKernel.Store.Migrations
import ParallaxKernel.Store.Rehash
import ParallaxKernel.Store.Canonical
import ParallaxKernel.Canary.Rollback
import ParallaxKernel.Canary.Lifetimes
import ParallaxKernel.Canary.Spellings
import ParallaxKernel.Apex.IngestRuns
import ParallaxKernel.Apex.PublicRead
import ParallaxKernel.Apex.CanonicalForm
import ParallaxKernel.Apex.ExportedTree
import ParallaxKernel.Backup.Consistency
import ParallaxKernel.Events.ConflictWriter
import ParallaxKernel.Router.CircuitBreaker
import ParallaxKernel.Store.Index
import ParallaxKernel.MemoryCards.Export
import ParallaxKernel.Server.DrainJournal
import ParallaxKernel.Server.JournalFile
import ParallaxKernel.Canary.Duplicates
import ParallaxKernel.Canary.Promotion
import ParallaxKernel.Canary.Exporter
import ParallaxKernel.Client.WalQueue
import ParallaxKernel.Client.DrainProgress
import ParallaxKernel.Client.Hook
import ParallaxKernel.Session.Reminder
import ParallaxKernel.Session.Search
import ParallaxKernel.Session.Ranking
import ParallaxKernel.Session.SubjectMatch
import ParallaxKernel.Session.Mentions
import ParallaxKernel.Router.BackfillRunner
import ParallaxKernel.Router.CoreFingerprint
import ParallaxKernel.Router.SqliteGate
import ParallaxKernel.Router.DualReadMetrics
import ParallaxKernel.Shadow.ChecksumChain
import ParallaxKernel.Llm.Call
import ParallaxKernel.Llm.Provenance
import ParallaxKernel.MemoryCards.IngestRuns
import ParallaxKernel.Retrieval.RankFusion
import ParallaxKernel.Retrieval.HybridRank
import ParallaxKernel.Extract.Chunking
import ParallaxKernel.Obs.Log
import ParallaxKernel.Router.DiscrepancyLive
import ParallaxKernel.Extract.Shadow
import ParallaxKernel.Session.FileLink
import ParallaxKernel.Server.Tenancy
import ParallaxKernel.Migrations.Ledger
import ParallaxKernel.Router.DecisionRates
import ParallaxKernel.Shadow.Interceptor
import ParallaxKernel.Server.Lifespan
import ParallaxKernel.Apex.IndexFile
import ParallaxKernel.Apex.IndexFreshness
