import GeoSvr.Runs
import GeoSvr.Bytes
import GeoSvr.Skb
import GeoSvr.Netlink
import GeoSvr.Ipenc
import GeoSvr.RoundTrip
import GeoSvr.Queue
import GeoSvr.Hook
import GeoSvr.Conservation
import GeoSvr.Release
import GeoSvr.Geometry
import GeoSvr.NeighList
import GeoSvr.NeighManager
import GeoSvr.TimerOwnership
import GeoSvr.TimerLifetime
import GeoSvr.Beacon
import GeoSvr.BeaconNetwork
import GeoSvr.Dijkstra
import GeoSvr.RoadMap
import GeoSvr.RouteSearch
import GeoSvr.RouteRestore
import GeoSvr.Orbits
import GeoSvr.Forwarding
import GeoSvr.LoopFreedom
import GeoSvr.Text
import GeoSvr.Routing
import GeoSvr.Relay
import GeoSvr.Access
import GeoSvr.AgentQueue
import GeoSvr.Bounds
import GeoSvr.Completeness
import GeoSvr.CpcKernel
import GeoSvr.DaemonBounds
import GeoSvr.Expiry
import GeoSvr.DisjointRoutes
import GeoSvr.ForwardRequest
import GeoSvr.KernelBounds
import GeoSvr.Lifecycle
import GeoSvr.Marking
import GeoSvr.NeighTable
import GeoSvr.NextHop
import GeoSvr.KeyedList
import GeoSvr.NodeIsolation
import GeoSvr.OptimalRoute
import GeoSvr.QueueOrder
import GeoSvr.RouteText
import GeoSvr.ShortestPaths
import GeoSvr.Takeover
import GeoSvr.DedupOrder
import GeoSvr.GraphImport
import GeoSvr.Relearning
import GeoSvr.TimerContract
import GeoSvr.Upsert
import GeoSvr.WaitTime
import GeoSvr.FirstLeast
import GeoSvr.OneWay
import GeoSvr.SegmentDistance
import GeoSvr.WhileLoop
import GeoSvr.MsvrMap
import GeoSvr.PathSearch
import GeoSvr.PathRestore
import GeoSvr.EndPoints
import GeoSvr.MeanChoice
import GeoSvr.MsvrNblist
import GeoSvr.NblistRuns
import GeoSvr.PathCodec
import GeoSvr.CpcRt
import GeoSvr.CpcRtRuns
import GeoSvr.CpcRtUpdate
import GeoSvr.CpcRtExpiry
import GeoSvr.LinkedRing
import GeoSvr.IntrusiveList
import GeoSvr.Network
import GeoSvr.Delivery
import GeoSvr.Custody
import GeoSvr.Passage
import GeoSvr.RecordRing
import GeoSvr.CpcMemory
import GeoSvr.CpcMemoryRuns
import GeoSvr.CpcModuleOrder
import GeoSvr.CpcModuleMemory
import GeoSvr.NetlinkWire
import GeoSvr.MsvrHops
import GeoSvr.Attributes
