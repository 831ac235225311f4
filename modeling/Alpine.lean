import Alpine.Dtcp.Retransmission
import Alpine.Dtcp.OneOutstanding
import Alpine.Dtcp.StopAndWait
import Alpine.Dtcp.Handshake
import Alpine.Dtcp.Retry
import Alpine.Protocol.PeerRegistration
import Alpine.Protocol.QueryLimit
import Alpine.Protocol.QueryRegistry
import Alpine.Protocol.Retrieval
import Alpine.Protocol.QueryEffects
import Alpine.Protocol.QueryStart
import Alpine.Protocol.ReliableQueueRuns
import Alpine.Dtcp.BroadcastRuns
import Alpine.Dtcp.MuxOutcomes
import Alpine.Protocol.QuietChains
import Alpine.Dtcp.PoolPlaces
import Alpine.Dtcp.WorkerRuns
import Alpine.Dtcp.SendQueueRuns
import Alpine.Dtcp.BroadcastAccounts
import Alpine.Protocol.DecoderBounds
import Alpine.Protocol.AlpinePacket
import Alpine.Protocol.ModuleRuns
import Alpine.Protocol.BreakerRuns
import Alpine.Protocol.IpFilterRuns
import Alpine.RestBridge.JsonWriter
import Alpine.NetUtils.GfskDemodulator
import Alpine.ResourceStore.ResourceStore
import Alpine.RestBridge.ContentRuns
import Alpine.RestBridge.RouteMatching
import Alpine.RestBridge.JsonRpcAnswers
import Alpine.RestBridge.TorFraming
import Alpine.RestBridge.TorLoop
import Alpine.ConfigUtils.ConfigRuns
import Alpine.ConfigUtils.ConfigCopies
import Alpine.RestBridge.ConnectionRuns
import Alpine.RestBridge.HttpFraming
import Alpine.Protocol.CidrGrammar
import Alpine.Protocol.ResourcePages
import Alpine.Protocol.ResultAccounts
import Alpine.RestBridge.ClusterLocks
import Alpine.RestBridge.LoadRedirects
import Alpine.RestBridge.SplitBrain
import Alpine.RestBridge.WebhookDispatcher
import Alpine.VfsUtils.CacheRuns
import Alpine.Dtcp.BroadcastSets
import Alpine.Protocol.QueryCacheRuns
import Alpine.NetUtils.WifiBeacon
import Alpine.RestBridge.MdnsService
import Alpine.RestBridge.ChallengeRuns
import Alpine.RestBridge.HeartbeatRequest
import Alpine.RestBridge.MetricsRegistry
import Alpine.VfsUtils.AccessTracker
import Alpine.RestBridge.RateLimiter
import Alpine.AppUtils.AgedQueue
import Alpine.NetUtils.DottedQuad
import Alpine.RestBridge.Handshake
import Alpine.RestBridge.MediaRanges
import Alpine.RestBridge.HandBuilt
import Alpine.ConfigUtils.ArgumentVector
import Alpine.Protocol.OptionDataCopies
import Alpine.Protocol.FeedbackAggregator
import Alpine.Dtcp.ConnBackoff
import Alpine.Protocol.ProfileCounters
import Alpine.Dtcp.SendThrottle
import Alpine.Protocol.RatingStore
import Alpine.NetUtils.AnnouncementCodec
import Alpine.Protocol.QueryModuleRuns
import Alpine.TransBase.BufferRuns
import Alpine.ThreadUtils.AutoThread
