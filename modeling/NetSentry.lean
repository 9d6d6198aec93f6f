import NetSentry.Lib.Search
import NetSentry.Lib.KeyedFold
import NetSentry.Lib.Transition
import NetSentry.Network.TlsParser
import NetSentry.Network.ClientHello
import NetSentry.Network.Equiv.HttpDecode
import NetSentry.Network.Equiv.TlsDecode
import NetSentry.Network.Equiv.TlsBounds
import NetSentry.Network.Equiv.PacketCapture
import NetSentry.Network.PacketAnalyzer
import NetSentry.Network.Equiv.PacketAnalyzer
import NetSentry.Network.Equiv.DnsParser
import NetSentry.Network.Equiv.Ipv4Frame
import NetSentry.Network.Equiv.ProtocolDetection
import NetSentry.Main.Equiv.PacketTask
import NetSentry.Main.Shutdown
import NetSentry.Main.Equiv.Shutdown
import NetSentry.Core.Equiv.CpuCollector
import NetSentry.Core.ConfigManager
import NetSentry.Core.Equiv.ConfigManager
import NetSentry.Lib.Simulation
import NetSentry.Core.BoundedQueue
import NetSentry.Core.Equiv.CircularBuffer
import NetSentry.Network.Equiv.PacketHistory
import NetSentry.Network.Equiv.HostTraffic
import NetSentry.Core.Equiv.ThreadPool
import NetSentry.Lib.ByteMemory
import NetSentry.Lib.LinkedChain
import NetSentry.Core.MemoryPool
import NetSentry.Core.Equiv.MemoryPool
import NetSentry.Core.Equiv.PoolAddresses
import NetSentry.Core.LockFreeQueue
import NetSentry.Core.Equiv.LockFreeQueue
import NetSentry.Alert.AlertManager
import NetSentry.Alert.Equiv.AlertManager
import NetSentry.Core.ConfigYaml
import NetSentry.Core.Equiv.ConfigYaml
import NetSentry.Network.Equiv.TlsAlignment
import NetSentry.Network.Equiv.TlsSuffix
import NetSentry.Network.Equiv.CaptureLoop
import NetSentry.Main.Options
import NetSentry.Main.Equiv.Options
import NetSentry.Api.RestApi
import NetSentry.Api.Equiv.RestApi
import NetSentry.Core.Equiv.LockFreeQueueFifo
import NetSentry.Api.ServerLifecycle
import NetSentry.Api.Equiv.ServerLifecycle
import NetSentry.Core.CollectorBase
import NetSentry.Core.Equiv.CollectorBase
import NetSentry.Network.CaptureLifecycle
import NetSentry.Network.Equiv.CaptureLifecycle
import NetSentry.Core.PoolAllocator
import NetSentry.Core.Equiv.PoolAllocator
import NetSentry.Network.Equiv.DnsTransport
import NetSentry.Network.Equiv.HttpDirection
import NetSentry.Lib.ByteOrder
import NetSentry.Network.Equiv.ConnectionKey
import NetSentry.Network.EthernetFrame
import NetSentry.Network.Equiv.EthernetFrame
import NetSentry.Network.Equiv.InventedFlows
import NetSentry.Network.Equiv.ConnectionTimes
import NetSentry.Network.Equiv.ProtocolLatch
import NetSentry.Alert.Equiv.ThrowingCallbacks
import NetSentry.Alert.Equiv.AlertIndependence
import NetSentry.Core.ObjectPool
import NetSentry.Core.Equiv.ObjectPool
import NetSentry.Lib.OrderedMap
import NetSentry.Core.SystemMetrics
import NetSentry.Core.Equiv.SystemMetrics
import NetSentry.Core.Equiv.InsignificantYaml
import NetSentry.Lib.GuardedState
import NetSentry.Core.ConfigLocking
import NetSentry.Core.Equiv.ConfigLocking
import NetSentry.Lib.StdString
import NetSentry.Api.QueryWords
import NetSentry.Api.Equiv.QueryParams
import NetSentry.Lib.TopK
import NetSentry.Network.TopConnections
import NetSentry.Network.Equiv.TopConnections
import NetSentry.Api.Listings
import NetSentry.Api.Equiv.Limits
import NetSentry.Lib.Json
import NetSentry.Network.Equiv.Addresses
import NetSentry.Api.Equiv.ListingJson
import NetSentry.Core.Equiv.StoredKeys
import NetSentry.Lib.Wrapping
import NetSentry.Core.Equiv.CpuUsage
import NetSentry.Core.Equiv.CpuCores
import NetSentry.Core.MemoryCollector
import NetSentry.Core.Equiv.MemoryStats
import NetSentry.Main.Cleanup
import NetSentry.Main.Equiv.Cleanup
import NetSentry.Core.Equiv.MemoryGauges
import NetSentry.Core.Equiv.PoolAlignment
import NetSentry.Network.Equiv.HttpHeaders
import NetSentry.Core.Equiv.LockFreeQueueSize
import NetSentry.Core.Equiv.LockFreeQueueValues
import NetSentry.Lib.Linearizable
import NetSentry.Core.Equiv.LockFreeQueueLinear
import NetSentry.Lib.Progress
import NetSentry.Core.Equiv.ThreadPoolProgress
import NetSentry.Core.Equiv.LockFreeQueueProgress
import NetSentry.Main.Settings
import NetSentry.Main.Equiv.Settings
import NetSentry.Alert.Conditions
import NetSentry.Db.Records
import NetSentry.Main.Alerts
import NetSentry.Main.Equiv.Alerts
import NetSentry.Core.Equiv.LockFreeQueueLeaks
import NetSentry.Core.MetricRegistry
import NetSentry.Core.Equiv.MetricRegistry
import NetSentry.Main.MetricTask
import NetSentry.Main.Equiv.MetricTask
import NetSentry.Api.Server
import NetSentry.Api.Equiv.Server
import NetSentry.Main.WireTraffic
import NetSentry.Main.Equiv.WireTraffic
import NetSentry.Main.Equiv.ProcessedPackets
import NetSentry.Main.Equiv.Sightings
import NetSentry.Lib.OrderedChoice
import NetSentry.Network.Equiv.ParserOrder
import NetSentry.Network.Equiv.HttpSuffix
import NetSentry.Core.Equiv.CollectorProgress
import NetSentry.Core.Equiv.PoolContents
import NetSentry.Core.Equiv.ProcStat
import NetSentry.Core.Equiv.MemInfo
import NetSentry.Core.SharedBuffer
import NetSentry.Core.Equiv.SharedBuffer
import NetSentry.Lib.BinaryFloat
import NetSentry.Core.Equiv.Double
