import GameServer.Common.Message
import GameServer.Library.HashMap
import GameServer.Library.Outcome

/-! # The registry center and its message handlers

The handlers share one context and send through one channel. What a completed
handler does is a function of the context; a panic ends it where it stands.
-/
namespace GameServer.Registry
open Common Library

structure NodeState where
  lastHeartbeatTime : ℤ
  stateInfo : StateInfo
deriving DecidableEq

def NodeState.default (now : ℤ) : NodeState where
  lastHeartbeatTime := now
  stateInfo := StateInfo.default

structure AppContext where
  nodeList : HashMap String NodeInfo
  nodeState : HashMap String NodeState
  masterNode : Option NodeInfo
  nodeIdPeerIdMap : HashMap String PeerIdentity

inductive Panic
  | contentMissing
  | badContent
  | stateMissing
  | peerMissing
deriving DecidableEq

/-- The shared context, and all that was handed to the thread that owns the socket. -/
structure Center where
  context : AppContext
  sent : List (PeerIdentity × Message)

namespace Center

def start : Center where
  context := { nodeList := ∅, nodeState := ∅, masterNode := none, nodeIdPeerIdMap := ∅ }
  sent := []

def send (c : Center) (peerId : PeerIdentity) (msg : Message) : Center :=
  { c with sent := c.sent ++ [(peerId,msg)] }

def reply (c : Center) (peerId : PeerIdentity) (r : RegisterResp) : Center :=
  c.send peerId (Message.registerResp r)

def setMasterNode (c : Center) (nodeInfo : NodeInfo) : Center :=
  { c with context := { c.context with masterNode := some nodeInfo } }

/-- The three inserts of a registration. -/
def insertNode (c : Center) (now : ℤ) (clientId : String) (nodeInfo : NodeInfo) (peerId : PeerIdentity) :
    Center :=
  { c with context :=
    { c.context with
      nodeList := c.context.nodeList.insert clientId nodeInfo
      nodeState := c.context.nodeState.insert clientId (NodeState.default now)
      nodeIdPeerIdMap := c.context.nodeIdPeerIdMap.insert clientId peerId } }

@[simp] theorem send_context (c : Center) (peerId : PeerIdentity) (msg : Message) :
    (c.send peerId msg).context = c.context := rfl

@[simp] theorem reply_context (c : Center) (peerId : PeerIdentity) (r : RegisterResp) :
    (c.reply peerId r).context = c.context := rfl

end Center

section
variable (now : ℤ) (msg : Message) (peerId : PeerIdentity) (c : Center)

def handleRegister : Outcome Panic Center :=
  if (c.context.nodeList.lookup msg.clientId).isSome then
    Outcome.ok (c.reply peerId (RegisterResp.fail "already register"))
  else
    match msg.content with
    | none => Outcome.ok c
    | some content =>
      match content.asNodeInfo with
      | none => Outcome.fail c .badContent
      | some nodeInfo =>
        match nodeInfo.nodeType with
        | .Master =>
          if c.context.masterNode.isSome then
            Outcome.ok (c.reply peerId (RegisterResp.fail "only one master node can exist"))
          else
            Outcome.ok (((c.setMasterNode nodeInfo).insertNode now msg.clientId nodeInfo peerId).reply peerId
              RegisterResp.success)
        | .Slave =>
          if c.context.masterNode.isNone then
            Outcome.ok (c.reply peerId (RegisterResp.fail "master node not exist,can't register slave"))
          else
            Outcome.ok ((c.insertNode now msg.clientId nodeInfo peerId).reply peerId RegisterResp.success)

/-- A report of a node the state table does not know is dropped. -/
def handleReport : Outcome Panic Center :=
  match msg.content with
  | none => Outcome.ok c
  | some content =>
    match content.asStateInfo with
    | none => Outcome.fail c .badContent
    | some stateInfo =>
      let nodeState := c.context.nodeState.adjust msg.clientId
        (fun _ => { lastHeartbeatTime := now, stateInfo := stateInfo })
      Outcome.ok { c with context := { c.context with nodeState := nodeState } }

/-- The state table is left alone. -/
def handleConvertToMasterResp : Outcome Panic Center :=
  match msg.content with
  | none => Outcome.fail c .contentMissing
  | some content =>
    match content.asNodeInfo with
    | none => Outcome.fail c .badContent
    | some newMasterNodeInfo =>
      let c := c.setMasterNode newMasterNodeInfo
      let nodeList := c.context.nodeList.insert newMasterNodeInfo.getKey newMasterNodeInfo
      Outcome.ok { c with context := { c.context with nodeList := nodeList } }

def handleMsgTask : Outcome Panic Center :=
  match msg.operation with
  | .Register => handleRegister now msg peerId c
  | .Report => handleReport now msg c
  | .ConvertToMasterResp => handleConvertToMasterResp msg c
  | _ => Outcome.ok c

end

/-- What a registration built by `Message::register` can do. -/
inductive RegisterEffect (now : ℤ) (nodeInfo : NodeInfo) (peerId : PeerIdentity) (c : Center) : Center → Prop
  | refused (reason : String) :
      RegisterEffect now nodeInfo peerId c (c.reply peerId (RegisterResp.fail reason))
  | master : nodeInfo.getKey ∉ c.context.nodeList → nodeInfo.nodeType = .Master →
      c.context.masterNode = none →
      RegisterEffect now nodeInfo peerId c
        (((c.setMasterNode nodeInfo).insertNode now nodeInfo.getKey nodeInfo peerId).reply peerId
          RegisterResp.success)
  | slave : nodeInfo.getKey ∉ c.context.nodeList → nodeInfo.nodeType = .Slave →
      c.context.masterNode ≠ none →
      RegisterEffect now nodeInfo peerId c
        ((c.insertNode now nodeInfo.getKey nodeInfo peerId).reply peerId RegisterResp.success)

theorem registerEffect (now : ℤ) (nodeInfo : NodeInfo) (nodeType : NodeType) (peerId : PeerIdentity)
    (c : Center) : ∃ c', handleMsgTask now (Message.register nodeInfo nodeType) peerId c = Outcome.ok c' ∧
      RegisterEffect now nodeInfo peerId c c' := by
  simp only [handleMsgTask, Message.register, handleRegister, Content.asNodeInfo]
  by_cases hin : (c.context.nodeList.lookup nodeInfo.getKey).isSome
  · simp only [hin, if_true]
    exact ⟨_,rfl,.refused _⟩
  · have hnot : nodeInfo.getKey ∉ c.context.nodeList := fun hm => hin (AList.lookup_isSome.mpr hm)
    simp only [hin]
    cases hm : c.context.masterNode with
    | none =>
      cases ht : nodeInfo.nodeType with
      | Master => exact ⟨_,rfl,.master hnot ht hm⟩
      | Slave => exact ⟨_,rfl,.refused _⟩
    | some m =>
      cases ht : nodeInfo.nodeType with
      | Master => exact ⟨_,rfl,.refused _⟩
      | Slave => exact ⟨_,rfl,.slave hnot ht (by simp [hm])⟩

theorem handleReport_eq (now : ℤ) (clientId : String) (stateInfo : StateInfo) (peerId : PeerIdentity)
    (c : Center) : handleMsgTask now (Message.stateReport clientId stateInfo) peerId c =
      Outcome.ok { c with context := { c.context with
        nodeState := c.context.nodeState.adjust clientId
          (fun _ => { lastHeartbeatTime := now, stateInfo := stateInfo }) } } := rfl

theorem handleConvertToMasterResp_eq (now : ℤ) (nodeInfo : NodeInfo) (peerId : PeerIdentity) (c : Center) :
    handleMsgTask now (Message.convertToMasterResp nodeInfo) peerId c =
      Outcome.ok { c with context := { c.context with
        masterNode := some nodeInfo
        nodeList := c.context.nodeList.insert nodeInfo.getKey nodeInfo } } := rfl

/-! ## A node list keyed by its nodes -/

/-- Every listed node is listed under its own key. -/
def Keyed (nodes : HashMap String NodeInfo) : Prop := ∀ k n, nodes.lookup k = some n → n.getKey = k

section
variable {nodes : HashMap String NodeInfo}

theorem keyed_empty : Keyed ∅ := fun _ _ hn => by cases hn

theorem keyed_insert (h : Keyed nodes) (nodeInfo : NodeInfo) :
    Keyed (nodes.insert nodeInfo.getKey nodeInfo) := by
  intro k n hn
  rw [AList.lookup_insert_eq] at hn
  split at hn
  · rename_i hk
    rw [hk, Option.some.inj hn]
  · exact h k n hn

theorem keyed_erase (h : Keyed nodes) (k : String) : Keyed (nodes.erase k) :=
  fun _ _ hn => h _ _ (AList.lookup_of_lookup_erase hn).2

theorem keyed_eraseAll (h : Keyed nodes) (ks : List String) : Keyed (nodes.eraseAll ks) := by
  intro k n hn
  rw [AList.lookup_eraseAll] at hn
  split at hn
  · cases hn
  · exact h k n hn

end

end GameServer.Registry
