import GameServer.Common.Basic
import GameServer.Common.Node

/-! # Messages between clients, servers and the registry

The content of a message is JSON text in the source. It is modelled by the value
the text encodes, so that decoding succeeds exactly on text of the right shape.
-/
namespace GameServer.Common

inductive Operation
  | Ping
  | Pong
  | Login
  | Logout
  | Aoe
  | SetVelocity
  | Query
  | Reply
  | QueryResp
  | Register
  | Report
  | ConvertToMasterResp
  | AddUser
  | DelUser
  | ConvertToMaster
  | ChangeMaster
  | RegisterResp
deriving DecidableEq

/-- A socket identity; every identity used here is UTF-8 text. -/
abbrev PeerIdentity := String

structure RegisterResp where
  isSuccess : Bool
  reason : Option String
deriving DecidableEq

namespace RegisterResp

def new (isSuccess : Bool) (reason : Option String) : RegisterResp :=
  { isSuccess := isSuccess, reason := reason }
def success : RegisterResp := new true none
def fail (reason : String) : RegisterResp := new false (some reason)

end RegisterResp

/-- What the text in a message encodes. -/
inductive Content
  | text (s : String)
  | nodeInfo (n : NodeInfo)
  | stateInfo (s : StateInfo)
  | user (u : User)
  | users (us : List User)
  | velocity (v : Velocity)
  | scope (s : RectScope)
  | aoe (radius : ℚ) (money : UInt64)
  | registerResp (r : RegisterResp)
deriving DecidableEq

namespace Content

def asNodeInfo : Content → Option NodeInfo
  | .nodeInfo n => some n
  | _ => none
def asStateInfo : Content → Option StateInfo
  | .stateInfo s => some s
  | _ => none
def asUser : Content → Option User
  | .user u => some u
  | _ => none
def asVelocity : Content → Option Velocity
  | .velocity v => some v
  | _ => none
def asScope : Content → Option RectScope
  | .scope s => some s
  | _ => none
def asAoe : Content → Option (ℚ × UInt64)
  | .aoe radius money => some (radius, money)
  | _ => none
def asRegisterResp : Content → Option RegisterResp
  | .registerResp r => some r
  | _ => none

end Content

structure Message where
  clientId : String
  userId : Option UserId
  operation : Operation
  content : Option Content
  clientPeerId : Option String
deriving DecidableEq

namespace Message

def setPeerId (m : Message) (peerId : String) : Message := { m with clientPeerId := some peerId }
def setPeerIdOpt (m : Message) (peerId : Option String) : Message :=
  { m with clientPeerId := peerId }

def ping (clientId : String) : Message :=
  { clientId := clientId, userId := none, operation := .Ping, content := none, clientPeerId := none }

def login (clientId : String) : Message :=
  { clientId := clientId, userId := none, operation := .Login, content := none, clientPeerId := none }

def logout (clientId : String) : Message :=
  { clientId := clientId, userId := none, operation := .Logout, content := none,
    clientPeerId := none }

def aoe (clientId : String) (userId : UserId) (radius : ℚ) (money : UInt64) : Message :=
  { clientId := clientId, userId := some userId, operation := .Aoe,
    content := some (.aoe radius money), clientPeerId := none }

def setVelocity (clientId : String) (userId : UserId) (velocity : Velocity) : Message :=
  { clientId := clientId, userId := some userId, operation := .SetVelocity,
    content := some (.velocity velocity), clientPeerId := none }

def query (clientId : String) (scope : RectScope) : Message :=
  { clientId := clientId, userId := none, operation := .Query, content := some (.scope scope),
    clientPeerId := none }

def register (nodeInfo : NodeInfo) (_nodeType : NodeType) : Message :=
  { clientId := nodeInfo.getKey, userId := none, operation := .Register,
    content := some (.nodeInfo nodeInfo), clientPeerId := none }

def stateReport (clientId : String) (stateInfo : StateInfo) : Message :=
  { clientId := clientId, userId := none, operation := .Report,
    content := some (.stateInfo stateInfo), clientPeerId := none }

def addUser (clientId : String) (user : User) : Message :=
  { clientId := clientId, userId := some user.id, operation := .AddUser,
    content := some (.user user), clientPeerId := none }

def delUser (clientId : String) (userId : UserId) : Message :=
  { clientId := clientId, userId := some userId, operation := .DelUser, content := none,
    clientPeerId := none }

def convertToMaster (clientId : String) : Message :=
  { clientId := clientId, userId := none, operation := .ConvertToMaster, content := none,
    clientPeerId := none }

def changeMaster (clientId : String) (masterNodeInfo : NodeInfo) : Message :=
  { clientId := clientId, userId := none, operation := .ChangeMaster,
    content := some (.nodeInfo masterNodeInfo), clientPeerId := none }

def pong (clientId : String) : Message :=
  { clientId := clientId, userId := none, operation := .Pong, content := none, clientPeerId := none }

def resp (content : String) : Message :=
  { clientId := "", userId := none, operation := .Reply, content := some (.text content),
    clientPeerId := none }

def queryResp (users : List User) : Message :=
  { clientId := "", userId := none, operation := .QueryResp, content := some (.users users),
    clientPeerId := none }

def registerResp (r : RegisterResp) : Message :=
  { clientId := "", userId := none, operation := .RegisterResp, content := some (.registerResp r),
    clientPeerId := none }

def convertToMasterResp (nodeInfo : NodeInfo) : Message :=
  { clientId := nodeInfo.getKey, userId := none, operation := .ConvertToMasterResp,
    content := some (.nodeInfo nodeInfo), clientPeerId := none }

end Message
end GameServer.Common
