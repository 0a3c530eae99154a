import Mathlib.Algebra.Order.Ring.Rat

/-! # Nodes of the cluster and their load -/
namespace GameServer.Common

inductive NodeType
  | Master
  | Slave
deriving DecidableEq

structure NodeInfo where
  nodeAddr : String
  mainChannelPort : UInt16
  heartbeatPort : UInt16
  pubPort : UInt16
  nodeType : NodeType
deriving DecidableEq

namespace NodeInfo

def default : NodeInfo where
  nodeAddr := ""
  mainChannelPort := 0
  heartbeatPort := 0
  pubPort := 0
  nodeType := .Master

/-- The main address, also the client id a node uses towards master and registry. -/
def getKey (n : NodeInfo) : String := n.nodeAddr ++ ":" ++ toString n.mainChannelPort.toNat

end NodeInfo

/-- The load a node reports; the load factor and the delay are read as rationals. -/
structure StateInfo where
  maxConnection : UInt32
  currentConnection : UInt32
  loadFactor : ℚ
  avgUpdateDelay : ℚ
  userCount : UInt32
deriving DecidableEq

def StateInfo.default : StateInfo where
  maxConnection := 0
  currentConnection := 0
  loadFactor := 9 / 10
  avgUpdateDelay := 0
  userCount := 0

end GameServer.Common
