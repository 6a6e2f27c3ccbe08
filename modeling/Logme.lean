import Logme.DeobfuscateInPlace
import Logme.FileManagerFactory
import Logme.FileManagerSchedule
import Logme.ImmediateFlush
import Logme.ObfuscatedTruncation
import Logme.DirectorySizeWatchdog
import Logme.CompressionManagerFactory
import Logme.CompressFile
import Logme.BackendShutdown
import Logme.RotationPeriods
import Logme.RotationInterleaving
import Logme.RetentionAge
import Logme.ArchiveRecovery
import Logme.ArchiveRetention
import Logme.SharedBufferCache
import Logme.SubsystemLevelSnapshots
import Logme.FileIoDescriptors
import Logme.FileIoTruncate
import Logme.RecordFiltering
import Logme.ApplyCaching
import Logme.ApplyBuffers
import Logme.LogmefmtStreams
import Logme.Logmeobf
import Logme.LogStatisticsControl
import Logme.ChannelActive
import Logme.ConsoleOrder
import Logme.ConsoleManagerFactory
import Logme.ThreadScopes
import Logme.InheritedFlags
import Logme.ConfiguredHome
import Logme.ControlHandler
import Logme.Logmectl
import Logme.CollapseRuns
import Logme.OverrideGenerators
import Logme.ThreadOverrideLimits
import Logme.RecordFormatting
import Logme.DeobfuscateRecord
import Logme.UtcTimestamps
import Logme.Base64
import Logme.TracePointPatterns
import Logme.TemplateExpansion
import Logme.EnvironmentControl
import Logme.ConsoleQueue
import Logme.BufferBackend
import Logme.FileIoRead
import Logme.ControlJsonValues
import Logme.JsonReplies
import Logme.ReplaceAll
import Logme.IntJeaiii
import Logme.ThreadProcessPrefix
import Logme.CacheLimits
import Logme.ActiveBackendRuns
import Logme.FieldNameUpdates
import Logme.LinkedOutputOrder
import Logme.DeferredDeletion
import Logme.ControlListener
import Logme.DumpBuffer
import Logme.ThreadFields
