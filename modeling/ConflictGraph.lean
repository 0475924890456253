import ConflictGraph.Interval
import ConflictGraph.PartialMap
import ConflictGraph.Text
import ConflictGraph.Chain
import ConflictGraph.Lanes
import ConflictGraph.ListScheduling
import ConflictGraph.Timeline
import ConflictGraph.BestByKey
import ConflictGraph.Outcome
import ConflictGraph.Loop
import ConflictGraph.Transition
import ConflictGraph.NoisyOr
import ConflictGraph.Ancestry
import ConflictGraph.While
import ConflictGraph.Climb
import ConflictGraph.ProcessGroup
import ConflictGraph.OrderedDict
import ConflictGraph.Ranking
import ConflictGraph.Frontier
import ConflictGraph.Workload
import ConflictGraph.Lines
import ConflictGraph.GoTypes
import ConflictGraph.GoScheduler
import ConflictGraph.GoConfig
import ConflictGraph.GoPlacement
import ConflictGraph.GoRefine
import ConflictGraph.GoPlan
import ConflictGraph.GoRisk
import ConflictGraph.GoDeterminism
import ConflictGraph.GoMakespan
import ConflictGraph.GoSeparation
import ConflictGraph.GoExplanation
import ConflictGraph.GoPreference
import ConflictGraph.GoExecutor
import ConflictGraph.GoExecution
import ConflictGraph.GoProgress
import ConflictGraph.GoSink
import ConflictGraph.GoCommand
import ConflictGraph.GoExecuteOne
import ConflictGraph.GoBuffer
import ConflictGraph.PyTypes
import ConflictGraph.PyScheduler
import ConflictGraph.PySeparation
import ConflictGraph.PyPlan
import ConflictGraph.PyRefine
import ConflictGraph.PyPlacementRisk
import ConflictGraph.PyText
import ConflictGraph.PyJson
import ConflictGraph.PyNormalize
import ConflictGraph.PyTracing
import ConflictGraph.PyReplay
import ConflictGraph.PyQuality
import ConflictGraph.PyPath
import ConflictGraph.PyPathStable
import ConflictGraph.PyNumeral
import ConflictGraph.PyStable
import ConflictGraph.PyDumps
import ConflictGraph.PyEvent
import ConflictGraph.PySink
import ConflictGraph.PyIsolation
import ConflictGraph.PySinkThread
import ConflictGraph.PySinkClose
import ConflictGraph.PyAttribution
import ConflictGraph.PyGraph
import ConflictGraph.PyGraphOrder
import ConflictGraph.PyGraphBuild
import ConflictGraph.PyPredictor
import ConflictGraph.PyEvidence
import ConflictGraph.PyFeatures
import ConflictGraph.PyCandidates
import ConflictGraph.PyRenaming
import ConflictGraph.PyRedaction
import ConflictGraph.PyMetrics
import ConflictGraph.PyCalibration
import ConflictGraph.PyRanking
import ConflictGraph.PyDataset
import ConflictGraph.PySplit
import ConflictGraph.PyBalance
import ConflictGraph.PyDatasetBuild
import ConflictGraph.PyPairPredictions
import ConflictGraph.PyArtifact
import ConflictGraph.FileWrite
import ConflictGraph.PyArtifactFile
import ConflictGraph.PyDatasetRows
import ConflictGraph.PyDatasetFile
import ConflictGraph.PlacementFrontier
import ConflictGraph.PyBenchmark
import ConflictGraph.PyExecutor
import ConflictGraph.PyRunOne
import ConflictGraph.GoArtifact
import ConflictGraph.GoPredictionRows
import ConflictGraph.RiskAgreement
import ConflictGraph.GoPairRisk
import ConflictGraph.RustAttribution
import ConflictGraph.AttributionFork
import ConflictGraph.RustTracer
import ConflictGraph.RustDescendants
import ConflictGraph.RustCleanup
import ConflictGraph.Utf8
import ConflictGraph.Utf8Text
import ConflictGraph.GoText
import ConflictGraph.GoOutput
import ConflictGraph.GoSummary
import ConflictGraph.DoubledSeparator
import ConflictGraph.NodeID
import ConflictGraph.GoCollect
import ConflictGraph.PyCollect
import ConflictGraph.NodeAgreement
import ConflictGraph.RustEvent
import ConflictGraph.RustAddress
import ConflictGraph.RustEndpoint
import ConflictGraph.RustNormalize
import ConflictGraph.RustPath
import ConflictGraph.RustReplay
import ConflictGraph.PathAgreement
import ConflictGraph.RustAccounting
import ConflictGraph.TracerProtocol
import ConflictGraph.SharedCounter
import ConflictGraph.EbpfProgram
import ConflictGraph.EbpfRuns
import ConflictGraph.EbpfRecords
import ConflictGraph.PyIndented
import ConflictGraph.PyArtifactStore
import ConflictGraph.Shelf
import ConflictGraph.PyTraceReplay
import ConflictGraph.ReplayAgreement
import ConflictGraph.KeyedRows
import ConflictGraph.PostgresTables
import ConflictGraph.PostgresClients
import ConflictGraph.PostgresRuns
import ConflictGraph.LeftJoin
import ConflictGraph.RecentRuns
import ConflictGraph.GoSaves
import ConflictGraph.CompletedRun
import ConflictGraph.PyResults
import ConflictGraph.PyRunTests
import ConflictGraph.PyPrefix
import ConflictGraph.PyTorn
import ConflictGraph.PyModelArtifact
