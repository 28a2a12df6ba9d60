import UltraNet.GuardedRun
import UltraNet.Interleaving
import UltraNet.AskSlots
import UltraNet.AppendFile
import UltraNet.ByteOrder
import UltraNet.DedupTable
import UltraNet.DedupWindow
import UltraNet.MessageIds
import UltraNet.ReceiverDurability
import UltraNet.SenderDurability
import UltraNet.LoggedAcks
import UltraNet.LoggedQueue
import UltraNet.Retransmission
import UltraNet.AtLeastOnce
import UltraNet.RejectedSend
import UltraNet.FrameRoutes
import UltraNet.ReplayOnce
import UltraNet.Transport
import UltraNet.Activation
import UltraNet.Cluster
import UltraNet.ChannelRuns
import UltraNet.PoolAccounting
import UltraNet.StealSafety
import UltraNet.Collect
import UltraNet.WsMessages
import UltraNet.HttpForward
import UltraNet.HttpServer
import UltraNet.HttpReplies
import UltraNet.HttpRoundTrips
import UltraNet.HeaderWords
import UltraNet.AcceptKey
import UltraNet.SessionIo
import UltraNet.HttpClient
import UltraNet.GappedReads
import UltraNet.Handshake
import UltraNet.ProxyRequests
import UltraNet.ProxyResponses
import UltraNet.RedisProxy
import UltraNet.RequestScanners
import UltraNet.MpscOrder
import UltraNet.BufferConservation
import UltraNet.CircuitBreaker
import UltraNet.RudpReceive
import UltraNet.RudpLosses
import UltraNet.DnsQueries
import UltraNet.DnsMessages
import UltraNet.DnsLookups
import UltraNet.WhenAny
import UltraNet.WireRoundTrips
import UltraNet.WireLayout
import UltraNet.DamagedLog
import UltraNet.LogSafety
import UltraNet.GossipBytes
import UltraNet.FrameHeader
import UltraNet.InlineAgreement
import UltraNet.FrameEncoding
import UltraNet.FrameWriters
import UltraNet.RingFrames
import UltraNet.EchoFrames
import UltraNet.Fragments
import UltraNet.GossipMerge
import UltraNet.InboundFrames
import UltraNet.CrashDisk
import UltraNet.Snapshot
import UltraNet.SnapshotCrash
import UltraNet.EmitGroups
import UltraNet.SinkStops
import UltraNet.RecordLengths
import UltraNet.WritevLoop
import UltraNet.DatagramsKept
import UltraNet.RecoveredEndpoints
import UltraNet.EndpointTable
import UltraNet.DiscoveryEvents
import UltraNet.DiscoveryLoop
import UltraNet.ShutdownCoordinator
import UltraNet.PendingOps
import UltraNet.DequeCalls
import UltraNet.MetricsJson
import UltraNet.MultishotHandOff
import UltraNet.SlidingBytes
import UltraNet.RetryGuards
import UltraNet.BackoffBalance
import UltraNet.Supervision
import UltraNet.FrameCache
import UltraNet.FrameStream
import UltraNet.RoutedDelivery
import UltraNet.IoAwaits
import UltraNet.InboundStreams
import UltraNet.WhenAll
import UltraNet.WaitAll
import UltraNet.WakeUps
import UltraNet.PoolTasks
import UltraNet.TaskLifetimes
import UltraNet.SqeSlots
import UltraNet.GossipNetwork
import UltraNet.ActorLocations
import UltraNet.AskReplies
import UltraNet.PoolShutdown
