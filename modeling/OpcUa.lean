import OpcUa.NodeIdHashes
import OpcUa.FreshIds
import OpcUa.OptimisticReplace
import OpcUa.GarbageRecovery
import OpcUa.MessageNumbers
import OpcUa.TokenOverlap
import OpcUa.MessageIsolation
import OpcUa.Reencoding
import OpcUa.BrowsePages
import OpcUa.PathWalks
import OpcUa.BatchResults
import OpcUa.ConcurrentEdits
import OpcUa.RepeatedIntervals
import OpcUa.DelayedExecution
import OpcUa.ClientAcknowledgements
import OpcUa.SampledAttributes
import OpcUa.ExpandedIdRoundTrips
import OpcUa.PresentFields
import OpcUa.ArrayAcceptance
import OpcUa.CheckedCopies
import OpcUa.UnsetContents
import OpcUa.ExpiredSessions
import OpcUa.FailedReferences
import OpcUa.MethodNodes
import OpcUa.Lifecycles
import OpcUa.PointerSurvival
import OpcUa.ContinuationPoints
import OpcUa.NotificationRetention
import OpcUa.KeepAliveCadence
import OpcUa.ChangeDetection
import OpcUa.RangeGrammar
import OpcUa.MethodCalls
import OpcUa.RejectedWrites
import OpcUa.DateTimes
import OpcUa.ClientRemovals
import OpcUa.WholeInstances
import OpcUa.ClientIsolation
import OpcUa.TcpStreams
import OpcUa.ClientRuns
import OpcUa.ReplyStreams
import OpcUa.SampleOrder
