import LegacyV4v.RingContainment
import LegacyV4v.RingFifo
import LegacyV4v.RingSendv
import LegacyV4v.PageCover
import LegacyV4v.RingRegistry
import LegacyV4v.LockBalance
import LegacyV4v.SourceDomain
import LegacyV4v.UnreadData
import LegacyV4v.RuleNumbering
import LegacyV4v.PageRefs
import LegacyV4v.Wakeups
import LegacyV4v.ResetStorm
import LegacyV4v.ConnectorIsolation
import LegacyV4v.StreamClose
import LegacyV4v.SendWakeup
import LegacyV4v.StreamDriver
import LegacyV4v.BackPressure
import LegacyV4v.RingProgress
import LegacyV4v.Connection
import LegacyV4v.Handshake
import LegacyV4v.StreamIntegrity
import LegacyV4v.ListenerIsolation
import LegacyV4v.ConnectionIdentity
import LegacyV4v.ControlOrder
import LegacyV4v.RingOwnership
import LegacyV4v.SpaceAnnounce
import LegacyV4v.PendingQueue
import LegacyV4v.FileContext
import LegacyV4v.WriteOrder
import LegacyV4v.ListenerReads
import LegacyV4v.ConnectorReads
import LegacyV4v.AccepterReads
import LegacyV4v.ResetReplies
import LegacyV4v.ResetRequests
import LegacyV4v.XenbusClient
import LegacyV4v.ReceivePass
import LegacyV4v.WatchParse
import LegacyV4v.FullRing
import LegacyV4v.DestinationFetch
import LegacyV4v.SynBacklog
import LegacyV4v.IndexedRing
import LegacyV4v.Xenbus
import LegacyV4v.XenbusAdvance
import LegacyV4v.XenbusTransmit
import LegacyV4v.XenbusDecode
import LegacyV4v.XenbusReader
import LegacyV4v.XenbusReceive
import LegacyV4v.XenbusPasses
import LegacyV4v.SynCancel
import LegacyV4v.FilePurge
import LegacyV4v.RoutineOwnership
import LegacyV4v.ContextStates
import LegacyV4v.ConnectionTimer
import LegacyV4v.ContextLife
import LegacyV4v.SpaceReport
import LegacyV4v.SuspendTokens
import LegacyV4v.SuspendHandlers
import LegacyV4v.Quiesce
import LegacyV4v.XenbusTransaction
import LegacyV4v.WatchHandlers
import LegacyV4v.EventChannel
import LegacyV4v.EventStop
import LegacyV4v.EventDelivery
import LegacyV4v.EventBounds
import LegacyV4v.BlockTiling
import LegacyV4v.AustereHeap
import LegacyV4v.AusterePages
import LegacyV4v.AustereChunks
import LegacyV4v.AustereSafety
import LegacyV4v.ScatterGather
import LegacyV4v.OffsetRead
import LegacyV4v.FailedRegistration
import LegacyV4v.FailedBind
import LegacyV4v.ConnectAttempt
import LegacyV4v.FailedConnect
import LegacyV4v.DatagramRecv
import LegacyV4v.SparePort
import LegacyV4v.PendingXmitList
import LegacyV4v.ConnectorCompletion
import LegacyV4v.ListenerDrain
import LegacyV4v.ReplyBacking
import LegacyV4v.BigAllocation
import LegacyV4v.DispatchCalls
import LegacyV4v.StoppedDevice
import LegacyV4v.ContextRefs
import LegacyV4v.DirectoryListing
import LegacyV4v.AustereFormat
import LegacyV4v.FormatBuffer
import LegacyV4v.IoHole
import LegacyV4v.EventScan
import LegacyV4v.SubheapChunks
import LegacyV4v.InterruptSteps
import LegacyV4v.ContextAccounts
import LegacyV4v.HypercallLocks
import LegacyV4v.LogRing
import LegacyV4v.XenbusOff
import LegacyV4v.EvtchnTable
