import Yams.Program
import Yams.Outline
import Yams.Run
import Yams.Schedule
import Yams.Posix
import Yams.WikiLock
import Yams.WikiLockExclusion
import Yams.Json
import Yams.Frame
import Yams.Arguments
import Yams.CommandLine
import Yams.Client
import Yams.ClientDelivery
import Yams.Service
import Yams.MessageRoundtrip
import Yams.ServicePath
import Yams.Frontmatter
import Yams.Chunk
import Yams.Index
import Yams.Store
import Yams.SyncPlan
import Yams.Collect
import Yams.Catalog
import Yams.CatalogForm
import Yams.WikiPageReading
import Yams.WikiPageRoundtrip
import Yams.Reindex
import Yams.CatalogCheck
import Yams.WikiWrite
import Yams.ServiceAccounting
import Yams.JsonGrammar
import Yams.MessageCodec
import Yams.RequestFrame
import Yams.FrameStreams
import Yams.ScanMerge
import Yams.SyncHealing
import Yams.SearchValidated
import Yams.TraversalPages
import Yams.RenderSafety
import Yams.ChunkPacking
import Yams.FrontmatterAgreement
import Yams.FrontmatterSplit
import Yams.Fusion
import Yams.SnippetWindow
import Yams.ExactRescue
import Yams.RelatedLinks
import Yams.RepeatedUpdate
import Yams.LayoutContract
import Yams.LegacyIndex
import Yams.Durable
import Yams.StableTriple
import Yams.DurableReads
import Yams.DurableCommit
import Yams.LegacyAdoption
import Yams.GitStatus
import Yams.PrefixCode
import Yams.PlanSeal
import Yams.ApprovalDigest
import Yams.FinalValidation
import Yams.Deadline
import Yams.DeadlineFrames
import Yams.WeakResolution
import Yams.PolicyFences
import Yams.DisplayTitle
import Yams.Numerals
import Yams.PythonNumbers
import Yams.PythonFloats
import Yams.CheckOutput
import Yams.JsonReader
import Yams.QueryLog
import Yams.QueryLogLine
import Yams.AppendLog
import Yams.QueryLogAppend
import Yams.VectorRecord
import Yams.VectorCache
import Yams.VectorCacheLaws
import Yams.Completion
import Yams.Words
import Yams.Slugify
import Yams.ApplyManifest
import Yams.ApplyResidues
import Yams.Placeholders
import Yams.ArgumentReading
import Yams.SyncGenerations
import Yams.SyncReferences
import Yams.SyncContents
