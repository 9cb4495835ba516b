import RocmTests.Apex.CaptureTwice
import RocmTests.Apex.ParserRecovers
import RocmTests.Builder.CmakeCache
import RocmTests.Builder.Compile
import RocmTests.Builder.OnRemote
import RocmTests.Builder.RemoteMake
import RocmTests.Builder.RemoteSteps
import RocmTests.Builder.SentinelBuild
import RocmTests.Builder.SourceFingerprint
import RocmTests.Collections.Dict
import RocmTests.Collections.FirstSuccess
import RocmTests.Collections.LongestPrefix
import RocmTests.Collections.Partial
import RocmTests.Common.ExecutorLog
import RocmTests.Common.RemoteChild
import RocmTests.Common.WorkspaceLayout
import RocmTests.Conc.Raise
import RocmTests.Conc.Seq
import RocmTests.Conc.System
import RocmTests.Config.Loader
import RocmTests.Config.Priority
import RocmTests.Executors.BackgroundReader
import RocmTests.Executors.Executor
import RocmTests.Executors.Isolation
import RocmTests.Executors.PollRoundTrip
import RocmTests.Executors.ProcessPoll
import RocmTests.Executors.ReadLoop
import RocmTests.Executors.StopComplete
import RocmTests.Executors.StreamChannel
import RocmTests.Executors.StreamPollerThread
import RocmTests.GithubActions.AreaCoverage
import RocmTests.Gpu.Allocator
import RocmTests.Gpu.DrainReading
import RocmTests.Gpu.Enrichment
import RocmTests.Gpu.NodeOrder
import RocmTests.Gpu.PciKey
import RocmTests.Logging.AtomicWrites
import RocmTests.Logging.TestLogger
import RocmTests.Markers.DirectoryProfiles
import RocmTests.Markers.GpuCount
import RocmTests.Markers.LintSound
import RocmTests.Monitored.AnchorSearch
import RocmTests.Monitored.ConsoleFollower
import RocmTests.Monitored.CoverageGate
import RocmTests.Monitored.CsvReaders
import RocmTests.Monitored.DmesgCategories
import RocmTests.Monitored.DmesgDelta
import RocmTests.Monitored.DocumentedVerdict
import RocmTests.Monitored.GarbledCsv
import RocmTests.Monitored.Imbalance
import RocmTests.Monitored.KernLog
import RocmTests.Monitored.MarkerLanguage
import RocmTests.Monitored.MemorySizing
import RocmTests.Monitored.ProbeSamples
import RocmTests.Monitored.RasDowngrade
import RocmTests.Monitored.RunOne
import RocmTests.Monitored.RunRedirect
import RocmTests.Monitored.Rvs
import RocmTests.Monitored.RvsMatrix
import RocmTests.Monitored.TransferBench
import RocmTests.Monitored.UnmaskedMonitor
import RocmTests.Monitored.WatchdogNamed
import RocmTests.Nodes.Exclusivity
import RocmTests.Nodes.GpuFileLock
import RocmTests.Nodes.NodePool
import RocmTests.Nodes.PendingFile
import RocmTests.Nodes.PendingTracker
import RocmTests.Nodes.PoolOwnership
import RocmTests.Nodes.PoolSystem
import RocmTests.Nodes.Priority
import RocmTests.Nodes.Sidecar
import RocmTests.Nodes.SlotsProgress
import RocmTests.Nodes.SpecificDeadline
import RocmTests.Nodes.VramCapacity
import RocmTests.Plugins.FixtureHelpers
import RocmTests.Plugins.Retry
import RocmTests.Plugins.SessionLocks
import RocmTests.Plugins.SlotDrain
import RocmTests.Plugins.TargetExecutor
import RocmTests.Plugins.VramRequirement
import RocmTests.Plugins.WorkerPool
import RocmTests.Provisioning.Candidates
import RocmTests.Provisioning.EnvMetadata
import RocmTests.Provisioning.MetadataRoundTrip
import RocmTests.Provisioning.RemoteLock
import RocmTests.Provisioning.WheelOrder
import RocmTests.Provisioning.WheelRanking
import RocmTests.Provisioning.WheelTies
import RocmTests.Results.SummaryRows
import RocmTests.Rocm.AmdSmi
import RocmTests.Rocm.Rccl
import RocmTests.ScanTools.ChangedFiles
import RocmTests.ScanTools.Reports
import RocmTests.Scheduling.Demand
import RocmTests.Scheduling.Ordering
import RocmTests.Builder.AutotoolsMake
import RocmTests.Builder.SerialBuilds
import RocmTests.Collections.Batches
import RocmTests.Collections.Paging
import RocmTests.Executors.Container
import RocmTests.Executors.ContainerLife
import RocmTests.Executors.UploadTree
import RocmTests.GithubActions.RunnerCheck
import RocmTests.Plugins.ManualAllocator
import RocmTests.Results.Publishing
import RocmTests.Rocm.Gtest
import RocmTests.Monitored.OccupancyLoop
import RocmTests.Plugins.PoolStart
import RocmTests.Gpu.Health
