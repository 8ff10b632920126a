import Memex.Lib.Overlay
import Memex.Lib.Transaction
import Memex.Lib.Worklist
import Memex.Lib.Windows
import Memex.Lib.Reconciliation
import Memex.Lib.Replace
import Memex.Lib.Placeholders
import Memex.Lib.ShellWords
import Memex.Lib.PathLookup
import Memex.Lib.LineStream
import Memex.Lib.HeaderMachine
import Memex.Types
import Memex.State.Types
import Memex.State.Checkpoint
import Memex.Ingest.CheckpointSession
import Memex.Ingest.SessionRows
import Memex.Ingest.Plan
import Memex.Ingest.DocIds
import Memex.Ingest.Inventory
import Memex.Ingest.Discovery.Transcripts
import Memex.Ingest.Discovery.Bob
import Memex.Ingest.Discovery.Opencode
import Memex.Ingest.Publication
import Memex.Ingest.Prepare
import Memex.Ingest.Execution
import Memex.Ingest.DocIdReuse
import Memex.Ingest.ScopeRecovery
import Memex.Ingest.Escalation
import Memex.Ingest.Directories
import Memex.Ingest.DirectoryWalk
import Memex.Ingest.DirectoryRuns
import Memex.Sources.Json
import Memex.Sources.Jsonl
import Memex.Sources.Emission
import Memex.Sources.Muse
import Memex.Sources.Pi
import Memex.Sources.Grok
import Memex.Sources.Copilot
import Memex.Sources.Claude
import Memex.Ingest.ClaudeHistory
import Memex.Lib.Trace
import Memex.Mcp.OAuth
import Memex.Mcp.OAuthRuns
import Memex.Mcp.OAuthAuthority
import Memex.Mcp.OAuthSteps
import Memex.Mcp.OAuthGuarantees
import Memex.Mcp.OAuthBounds
import Memex.Lib.FileTree
import Memex.Index.Storage
import Memex.Index.SharedDirectory
import Memex.Index.StagedView
import Memex.Index.StagedEdits
import Memex.Index.StagedPublication
import Memex.Index.PrivateCopy
import Memex.Lib.Transitions
import Memex.Lib.Text
import Memex.Analytics.Labels
import Memex.Analytics.Catalogue
import Memex.Analytics.Batching
import Memex.Watch.Service
import Memex.Watch.EventLoop
import Memex.Watch.Hints
import Memex.Sources.Opencode
import Memex.Ingest.OpencodeRefresh
import Memex.Ingest.OpencodeView
import Memex.Ingest.SessionScopes
import Memex.Ingest.SessionOwnership
import Memex.Ingest.GenerationChange
import Memex.Analytics.Counts
import Memex.Ingest.CatalogueRefresh
import Memex.Ingest.CatalogueAgreement
import Memex.Lib.ChangeLog
import Memex.Ingest.Interrupted
import Memex.Ingest.EventLog
import Memex.Ingest.ChangeDetection
import Memex.Lib.LatestByKey
import Memex.Retrieval.CanonicalId
import Memex.Retrieval.EntryIds
import Memex.Sources.Jcode
import Memex.Retrieval.TranscriptIds
import Memex.Lib.HashTable
import Memex.Web.Auth
import Memex.Web.AuthRuns
import Memex.Web.AuthGuarantees
import Memex.Web.BootstrapTokens
import Memex.Web.TranscriptCache
import Memex.Web.TranscriptWindows
import Memex.Web.TranscriptRuns
import Memex.Lib.StableOrder
import Memex.Machine.Federation
import Memex.Machine.HybridSearch
import Memex.Machine.Scheduling
import Memex.Machine.ReadBudget
import Memex.Retrieval.Context
import Memex.Machine.BoundedReads
import Memex.Machine.BoundedAgreement
import Memex.Machine.PageTraversal
import Memex.Usage.Events
import Memex.Sources.ClaudeUsage
import Memex.Usage.OriginFilter
import Memex.Usage.OriginAttribution
import Memex.Lease.LockFiles
import Memex.Lease.Exclusion
import Memex.Lease.OrdinaryRoots
import Memex.Resume.Templates
import Memex.Qt.ListRuns
import Memex.Resume.LastSession
import Memex.Lib.Boundaries
import Memex.Ingest.Truncation
import Memex.Lib.Settling
import Memex.Lib.MarkedRows
import Memex.Usage.FactTables
import Memex.Usage.PartitionFacts
import Memex.State.ObjectCodec
import Memex.State.CheckpointObjects
import Memex.State.CheckpointCodec
import Memex.Ingest.TruncationRounds
import Memex.Ingest.FileChanges
import Memex.Sources.CodexUsage
import Memex.Resume.ValuesAsData
import Memex.Lib.FirstBest
import Memex.Sources.ClaudeReconcile
import Memex.Lib.BooleanQuery
import Memex.Index.Filters
import Memex.Machine.LocalSearch
import Memex.Index.Searcher
import Memex.Index.ReadLimits
import Memex.Index.SessionPages
import Memex.Machine.OriginSearch
import Memex.Web.ContentPages
import Memex.Transfer.MessageText
import Memex.Transfer.Compact
import Memex.Transfer.TagValues
import Memex.Sources.Hermes
import Memex.Sources.HermesTotals
import Memex.Lib.FirstByKey
import Memex.Lib.FreshNames
import Memex.Memory.Sections
import Memex.Memory.SectionRanges
import Memex.Memory.Paths
import Memex.Memory.Documents
import Memex.Memory.Reads
import Memex.Memory.Paging
import Memex.Memory.Refresh
import Memex.Memory.UnchangedFiles
import Memex.Memory.RepeatedRefresh
import Memex.Lib.Totals
import Memex.Web.Activity
import Memex.Web.ActivityChart
import Memex.Macos.HomeActivity
import Memex.Qt.Activity
import Memex.Web.ActivityAgreement
import Memex.Sources.Bob
import Memex.Sources.BobRewrites
import Memex.Lib.KeyedMachine
import Memex.Usage.CacheWaste
import Memex.Usage.Compact
import Memex.Lib.Bisection
import Memex.Sources.CodexParents
import Memex.Lib.KWayMerge
import Memex.Usage.Merge
import Memex.Machine.ReadContinuations
import Memex.Machine.Abbreviate
import Memex.Lib.CycleRotation
import Memex.Usage.SortEvents
import Memex.Vectors.Edits
import Memex.Vectors.PublicationReaders
