import SqlOptima.TransitionSystem
import SqlOptima.OrderedBucket
import SqlOptima.ChangeLog
import SqlOptima.TextKeys
import SqlOptima.CoreTypes
import SqlOptima.ChunkKeys
import SqlOptima.Queue
import SqlOptima.QueueIndex
import SqlOptima.TableMover
import SqlOptima.TableMoverInvariant
import SqlOptima.TableMoverRuns
import SqlOptima.ParallelClaim
import SqlOptima.Lsn
import SqlOptima.SourceLog
import SqlOptima.CdcPoll
import SqlOptima.CdcPollDelivery
import SqlOptima.CdcCapture
import SqlOptima.CdcCaptureDelivery
import SqlOptima.ChangeApply
import SqlOptima.DedupRows
import SqlOptima.ReplicationBus
import SqlOptima.ReplicationCheckpoint
import SqlOptima.KeyedTable
import SqlOptima.ChunkPipeline
import SqlOptima.ChunkPipelineProgress
import SqlOptima.ChunkPipelineLoad
import SqlOptima.ChunkRetry
import SqlOptima.CivilDate
import SqlOptima.DateCoverage
import SqlOptima.WireFormat
import SqlOptima.CellValues
import SqlOptima.ColumnTransforms
import SqlOptima.ColumnMasking
import SqlOptima.CopyValues
import SqlOptima.CopyFraming
import SqlOptima.CopyFidelity
import SqlOptima.CommandRow
import SqlOptima.PauseResume
import SqlOptima.ChunkLease
import SqlOptima.QuotedText
import SqlOptima.ConstraintPlan
import SqlOptima.ConstraintRestore
import SqlOptima.TransferRange
import SqlOptima.TransferKeys
import SqlOptima.TransferCopier
import SqlOptima.TransferRanges
import SqlOptima.TransferKeyset
import SqlOptima.TransferCompleteness
import SqlOptima.TransferStop
import SqlOptima.ApplyStatements
import SqlOptima.DedupMeaning
import SqlOptima.NumberText
import SqlOptima.JsonText
import SqlOptima.JsonValue
import SqlOptima.PythonValues
import SqlOptima.Envelope
import SqlOptima.BrokerTransport
import SqlOptima.ReplicationRuntime
import SqlOptima.RuntimeConsistency
import SqlOptima.CapturePosition
import SqlOptima.WatermarkCapture
import SqlOptima.ResumePosition
import SqlOptima.ParallelMigration
import SqlOptima.ChunkedMigration
import SqlOptima.Utf8Text
import SqlOptima.PythonTransforms
import SqlOptima.TransformChains
import SqlOptima.TransformTexts
import SqlOptima.TransformAgreement
import SqlOptima.JobDispatch
import SqlOptima.StoppedJob
import SqlOptima.DispatchOutcome
import SqlOptima.JobStatus
import SqlOptima.JobCache
import SqlOptima.WorkflowBridge
import SqlOptima.DoubleRounding
import SqlOptima.CutoverWorkflow
import SqlOptima.CutoverCheckpoint
import SqlOptima.CutoverCommit
import SqlOptima.TemporalExtraction
import SqlOptima.DdlIdentifier
import SqlOptima.TableValidators
import SqlOptima.ExceptRules
import SqlOptima.ValidationSoundness
import SqlOptima.RowHashExpressions
import SqlOptima.RowHashAgreement
import SqlOptima.WhileLoop
import SqlOptima.StreamingComparator
import SqlOptima.StreamingExactness
import SqlOptima.PostMigrationDdl
import SqlOptima.PostMigrationFinalizer
import SqlOptima.FinalizeRequests
import SqlOptima.FinalizeOrder
import SqlOptima.FinalizeRepeat
import SqlOptima.Base64
import SqlOptima.SecretsSurvival
import SqlOptima.InsertionDict
import SqlOptima.TransferPreflight
import SqlOptima.TransferDispatch
import SqlOptima.TransferColumns
import SqlOptima.TransferWholeTable
import SqlOptima.TransferLifecycle
import SqlOptima.StrandedTransfers
import SqlOptima.StopChoice
import SqlOptima.CivilMonth
import SqlOptima.PostgresTime
import SqlOptima.BoundaryCount
import SqlOptima.DateArithmetic
import SqlOptima.DatediffCounts
import SqlOptima.DatePreservation
import SqlOptima.PythonText
import SqlOptima.ControlFlow
import SqlOptima.ControlFlowSyntax
import SqlOptima.ControlFlowNesting
import SqlOptima.ControlFlowBalance
import SqlOptima.ElseIfReading
import SqlOptima.ControlFlowText
import SqlOptima.KeyedUpsert
import SqlOptima.MergeSemantics
import SqlOptima.MergeConverters
import SqlOptima.MergeEffect
import SqlOptima.TransferOverlap
import SqlOptima.TransferExclusion
import SqlOptima.ProceduralMigration
import SqlOptima.ProceduralTruth
import SqlOptima.PlanProgress
import SqlOptima.PlanOwnership
import SqlOptima.PlanBooking
import SqlOptima.RowcountReading
import SqlOptima.StaticPivot
import SqlOptima.DuplicateRemoval
import SqlOptima.ConversionRepair
import SqlOptima.ConstraintChoice
import SqlOptima.SeparatorScan
import SqlOptima.ArgumentSplitting
import SqlOptima.PostgresLexing
import SqlOptima.SchemaMapper
import SqlOptima.SelectLimits
import SqlOptima.IifExpansion
import SqlOptima.ConnectiveChains
import SqlOptima.ConnectiveScan
import SqlOptima.ExpressionConverter
import SqlOptima.BooleanSyntax
import SqlOptima.ExpressionLogic
import SqlOptima.PrimaryKeyChunker
import SqlOptima.UuidChunker
import SqlOptima.DependencyGraphEngine
import SqlOptima.AggregateDifferences
import SqlOptima.RowComparison
import SqlOptima.MaskingDiscovery
import SqlOptima.OverrideApplication
import SqlOptima.IdentityFinalize
import SqlOptima.CdcCheckpoint
import SqlOptima.CdcCatchup
import SqlOptima.CdcReplay
import SqlOptima.BatchRetry
import SqlOptima.ReplicationKeys
import SqlOptima.RangePlanning
import SqlOptima.RetryAccounting
import SqlOptima.StoredBoundaries
import SqlOptima.StringChunker
import SqlOptima.KeyComparison
import SqlOptima.ChunkPartition
import SqlOptima.RecentList
import SqlOptima.DeduplicatorCache
import SqlOptima.ChunkSplitting
import SqlOptima.FormatMask
import SqlOptima.DelimitedIdentifiers
import SqlOptima.ApplierStatements
import SqlOptima.LsnEncodings
import SqlOptima.ExchangeSelection
import SqlOptima.ConstraintOrder
import SqlOptima.Utf16Pieces
import SqlOptima.LobChunkReader
import SqlOptima.LobExtract
import SqlOptima.StoppedMoves
import SqlOptima.TransferRowCount
import SqlOptima.StringReplace
import SqlOptima.CheckExpressions
import SqlOptima.StoredDefaults
