import GameServer.Common.Node

/-! # Server configuration, as far as the modelled functions read it -/
namespace GameServer.Server
open Common

inductive Mode
  | Single
  | Cluster
deriving DecidableEq

structure App where
  mode : Mode

structure Basic where
  tickTime : ℚ
  heartbeat : ℤ
  maxAoeRadius : ℚ
  maxConnection : UInt32

structure GameServerConf where
  app : App
  basic : Basic
  node : NodeInfo

namespace GameServerConf

/-- `conf.toml`: the master of a cluster -/
def master : GameServerConf where
  app := { mode := .Cluster }
  basic := { tickTime := 1 / 50, heartbeat := 3000, maxAoeRadius := 20, maxConnection := 10000 }
  node :=
    { nodeAddr := "127.0.0.1", mainChannelPort := 5555, heartbeatPort := 5556, pubPort := 5557,
      nodeType := .Master }

/-- `single.toml`: one node on its own -/
def single : GameServerConf where
  app := { mode := .Single }
  basic := { tickTime := 1 / 50, heartbeat := 3000, maxAoeRadius := 20, maxConnection := 10000 }
  node :=
    { nodeAddr := "127.0.0.1", mainChannelPort := 5555, heartbeatPort := 5556, pubPort := 5557,
      nodeType := .Master }

/-- `slave1.toml` -/
def slave : GameServerConf where
  app := { mode := .Cluster }
  basic := { tickTime := 1 / 50, heartbeat := 3000, maxAoeRadius := 20, maxConnection := 10000 }
  node :=
    { nodeAddr := "127.0.0.1", mainChannelPort := 5565, heartbeatPort := 5566, pubPort := 5567,
      nodeType := .Slave }

/-- `slave2.toml` -/
def slave2 : GameServerConf where
  app := { mode := .Cluster }
  basic := { tickTime := 1 / 50, heartbeat := 3000, maxAoeRadius := 20, maxConnection := 10000 }
  node :=
    { nodeAddr := "127.0.0.1", mainChannelPort := 5575, heartbeatPort := 5576, pubPort := 5577,
      nodeType := .Slave }

theorem single_nodeType : single.node.nodeType = .Master := rfl
theorem single_mode : single.app.mode = .Single := rfl
theorem master_nodeType : master.node.nodeType = .Master := rfl
theorem slave_nodeType : slave.node.nodeType = .Slave := rfl
theorem slave_mode : slave.app.mode = .Cluster := rfl

end GameServerConf

/-- How the build treats an overflowing addition: a checked build panics, a
release build wraps. -/
inductive Overflow
  | panics
  | wraps
deriving DecidableEq

inductive Panic
  | oldMapMissing
  | mapIsNone
  | aoeUserMissing
  | moneyOverflow
  | removeMapMissing
  | mapTagText
  | clientNotLoggedIn
  | badContent
  | userIdMissing
  | channelClosed
deriving DecidableEq

end GameServer.Server
