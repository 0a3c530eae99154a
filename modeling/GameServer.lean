import GameServer.Library.HashMap
import GameServer.Library.Outcome
import GameServer.Library.Run
import GameServer.Library.Decimal
import GameServer.Library.Pool
import GameServer.Library.Enrolment
import GameServer.Library.Streams
import GameServer.Library.Waiting
import GameServer.Library.Receiving
import GameServer.Library.Numeral
import GameServer.Library.Detector
import GameServer.Library.ClampedWalk
import GameServer.Library.Window
import GameServer.Common.Basic
import GameServer.Common.Node
import GameServer.Common.Message
import GameServer.CommonServer.MapTool
import GameServer.CommonServer.MapText
import GameServer.Registry.AppContext
import GameServer.Registry.Keeping
import GameServer.Registry.Tables
import GameServer.Registry.Balancing
import GameServer.Registry.Election
import GameServer.Registry.Passes
import GameServer.Registry.Interleaving
import GameServer.Registry.Connections
import GameServer.Registry.Liveness
import GameServer.Registry.Offers
import GameServer.Server.Config
import GameServer.Server.World
import GameServer.Server.Query
import GameServer.Server.Grid
import GameServer.Server.Placement
import GameServer.Server.Tick
import GameServer.Server.AreaEffect
import GameServer.Server.Runs
import GameServer.Server.Conservation
import GameServer.Server.Sync
import GameServer.Server.MainHandle
import GameServer.Server.Promotion
import GameServer.Server.LateSnapshots
import GameServer.Server.Cover
import GameServer.Server.Tiling
import GameServer.Server.Handover
import GameServer.Server.Hits
import GameServer.Server.Commute
import GameServer.Server.Money
import GameServer.Server.Movement
import GameServer.Server.Logout
import GameServer.Server.SingleNode
import GameServer.Server.Replica
import GameServer.Server.Snapshots
import GameServer.Server.Alike
import GameServer.Server.Locks
import GameServer.Server.SnowId
import GameServer.Server.Heartbeat
import GameServer.Server.Load
import GameServer.Server.Arena
import GameServer.Server.Trajectory
import GameServer.Server.Pacing
import GameServer.Cluster.Sessions
import GameServer.Cluster.SessionAgreement
import GameServer.Cluster.SnapshotOrder
import GameServer.Cluster.UserIds
import GameServer.Cluster.Forwarding
import GameServer.Cluster.Replies
import GameServer.Cluster.Fleet
import GameServer.Cluster.FleetRegistry
import GameServer.Cluster.Mastership
import GameServer.Cluster.Receivers
import GameServer.Cluster.Eviction
import GameServer.Cluster.Answers
import GameServer.Cluster.Lag
import GameServer.Cluster.Acknowledged
import GameServer.Cluster.Following
import GameServer.Cluster.Settling
