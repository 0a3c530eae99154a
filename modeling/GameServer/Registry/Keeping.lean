import GameServer.Registry.AppContext

/-! # Watching the nodes and electing a master

One pass of the monitor removes the nodes that have been silent for more than five
seconds. If the recorded master is one of them the pass clears it and commands the
least loaded node left to take over. The recorded master is then set by the answer.
-/
namespace GameServer.Registry
open Common Library

namespace AppContext

/-- The clock is read once for each node. -/
def expired (clock : String → ℤ) (e : Σ _ : String, NodeState) : Bool :=
  decide (clock e.1 - e.2.lastHeartbeatTime > 5000)

def delList (ctx : AppContext) (clock : String → ℤ) : List String :=
  (ctx.nodeState.entries.filter (expired clock)).map Sigma.fst

def needElectMaster (ctx : AppContext) (clock : String → ℤ) : Bool :=
  match ctx.masterNode with
  | some masterNode => decide (masterNode.getKey ∈ ctx.delList clock)
  | none => false

end AppContext

/-- Less loaded, or the larger of two equally loaded nodes, or the one with fewer connections. -/
def preferred (state minLoad : StateInfo) : Bool :=
  if state.loadFactor < minLoad.loadFactor then true
  else if state.loadFactor = minLoad.loadFactor then
    if state.maxConnection > minLoad.maxConnection then true
    else if state.maxConnection = minLoad.maxConnection then
      decide (state.currentConnection < minLoad.currentConnection)
    else false
  else false

def minLoad (start : Σ _ : String, NodeState) (states : List (Σ _ : String, NodeState)) :
    Σ _ : String, NodeState :=
  states.foldl (fun min e => if preferred e.2.stateInfo min.2.stateInfo then e else min) start

def getMinLoadNode (nodeStateList : HashMap String NodeState) (nodeList : HashMap String NodeInfo) :
    Except Panic (Option NodeInfo) :=
  match nodeList.keys with
  | [] => .ok none
  | first :: _ =>
    match nodeStateList.lookup first with
    | none => .error .stateMissing
    | some state => .ok (nodeList.lookup (minLoad ⟨first,state⟩ nodeStateList.entries).1)

def sendChangeMaster (newMasterNode : NodeInfo) (c : Center) (clientId : String) : Outcome Panic Center :=
  match c.context.nodeIdPeerIdMap.lookup clientId with
  | none => Outcome.fail c .peerMissing
  | some peerId => Outcome.ok (c.send peerId (Message.changeMaster newMasterNode.getKey newMasterNode))

def electMaster (c : Center) : Outcome Panic Center :=
  match getMinLoadNode c.context.nodeState c.context.nodeList with
  | .error e => Outcome.fail c e
  | .ok none => Outcome.ok c
  | .ok (some newMasterNode) =>
    let masterClientId := newMasterNode.getKey
    match c.context.nodeIdPeerIdMap.lookup masterClientId with
    | none => Outcome.fail c .peerMissing
    | some peerId =>
      Outcome.forEach (sendChangeMaster newMasterNode)
        (c.send peerId (Message.convertToMaster masterClientId))
        (c.context.nodeList.erase masterClientId).keys

def heartbeatMonitor (clock : String → ℤ) (c : Center) : Outcome Panic Center :=
  let delList := c.context.delList clock
  let needElectMaster := c.context.needElectMaster clock
  let context := { c.context with
    nodeState := c.context.nodeState.eraseAll delList
    nodeList := c.context.nodeList.eraseAll delList }
  if needElectMaster then electMaster { c with context := { context with masterNode := none } }
  else Outcome.ok { c with context := context }

/-! ## What a pass removes -/

section
variable {ctx : AppContext} {clock : String → ℤ}

theorem needElectMaster_iff : ctx.needElectMaster clock = true ↔
    ∃ m, ctx.masterNode = some m ∧ m.getKey ∈ ctx.delList clock := by
  simp only [AppContext.needElectMaster]
  cases ctx.masterNode with
  | none => simp
  | some m => simp

end

/-! ## What an election sends -/

/-- The nodes to which a `ConvertToMaster` was sent, in order. -/
def commands (sent : List (PeerIdentity × Message)) : List String :=
  sent.filterMap (fun x => if x.2.operation = .ConvertToMaster then some x.2.clientId else none)

/-- The nodes commanded between two states of the registry. -/
def newCommands (c c' : Center) : List String := (commands c'.sent).drop (commands c.sent).length

section
variable {c : Center}

theorem commands_append (sent sent' : List (PeerIdentity × Message)) :
    commands (sent ++ sent') = commands sent ++ commands sent' := List.filterMap_append

theorem sendChangeMaster_state (n : NodeInfo) (c : Center) (clientId : String) :
    (sendChangeMaster n c clientId).state.context = c.context ∧
      commands (sendChangeMaster n c clientId).state.sent = commands c.sent := by
  simp only [sendChangeMaster]
  split
  · exact ⟨rfl,rfl⟩
  · refine ⟨rfl,?_⟩
    simp only [Outcome.ok_state, Center.send, commands_append]
    exact List.append_nil _

theorem electMaster_context (c : Center) : (electMaster c).state.context = c.context := by
  simp only [electMaster]
  split
  · rfl
  · rfl
  · rename_i n _
    split
    · rfl
    · exact Outcome.forEach_state (I := fun d : Center => d.context = c.context) rfl
        (fun d k _ hd => (sendChangeMaster_state n d k).1.trans hd)

theorem heartbeatMonitor_context (clock : String → ℤ) (c : Center) :
    (heartbeatMonitor clock c).state.context =
      { nodeState := c.context.nodeState.eraseAll (c.context.delList clock)
        nodeList := c.context.nodeList.eraseAll (c.context.delList clock)
        masterNode := if c.context.needElectMaster clock then none else c.context.masterNode
        nodeIdPeerIdMap := c.context.nodeIdPeerIdMap } := by
  simp only [heartbeatMonitor]
  split
  · rename_i hneed
    rw [electMaster_context]
  · rfl

theorem minLoad_mem (start : Σ _ : String, NodeState) (states : List (Σ _ : String, NodeState)) :
    minLoad start states = start ∨ minLoad start states ∈ states := by
  induction states generalizing start with
  | nil => exact Or.inl rfl
  | cons e states ih =>
    have hfold : minLoad start (e :: states) =
        minLoad (if preferred e.2.stateInfo start.2.stateInfo then e else start) states := rfl
    rw [hfold]
    split
    · rcases ih e with h | h
      · exact Or.inr (List.mem_cons.mpr (Or.inl h))
      · exact Or.inr (List.mem_cons_of_mem e h)
    · exact (ih start).imp_right (List.mem_cons_of_mem e)

theorem minLoad_stored {states : HashMap String NodeState} {first : String} {state : NodeState}
    (h : states.lookup first = some state) :
    states.lookup (minLoad ⟨first,state⟩ states.entries).1 =
      some (minLoad ⟨first,state⟩ states.entries).2 := by
  apply AList.mem_entries_iff.mp
  rcases minLoad_mem ⟨first,state⟩ states.entries with he | he
  · rw [he]
    exact AList.mem_entries_iff.mpr h
  · exact he

theorem exists_first {nodes : HashMap String NodeInfo} {k : String} (hk : k ∈ nodes) :
    ∃ first rest, nodes.keys = first :: rest ∧ first ∈ nodes := by
  cases hl : nodes.keys with
  | nil =>
    rw [AList.mem_keys, hl] at hk
    cases hk
  | cons first rest =>
    refine ⟨first,rest,rfl,?_⟩
    rw [AList.mem_keys, hl]
    exact List.mem_cons_self

/-- Among nodes whose states are known the scan returns the node where its loop ends. -/
theorem getMinLoadNode_eq {states : HashMap String NodeState} {nodes : HashMap String NodeInfo}
    (hkeys : ∀ k, k ∈ nodes ↔ k ∈ states) {k : String} (hk : k ∈ nodes) :
    ∃ first state node, states.lookup first = some state ∧
      nodes.lookup (minLoad ⟨first,state⟩ states.entries).1 = some node ∧
      getMinLoadNode states nodes = .ok (some node) := by
  obtain ⟨first,rest,hl,hfirst⟩ := exists_first hk
  obtain ⟨state,hstate⟩ := AList.exists_lookup ((hkeys first).mp hfirst)
  obtain ⟨node,hnode⟩ :=
    AList.exists_lookup ((hkeys _).mpr (AList.mem_of_lookup (minLoad_stored hstate)))
  refine ⟨first,state,node,hstate,hnode,?_⟩
  simp only [getMinLoadNode, hl, hstate]
  exact congrArg Except.ok hnode

theorem electMaster_of_empty (he : ∀ k, k ∉ c.context.nodeList) : electMaster c = Outcome.ok c := by
  have hkeys : c.context.nodeList.keys = [] :=
    List.eq_nil_iff_forall_not_mem.mpr (fun k hk => he k (AList.mem_keys.mpr hk))
  simp only [electMaster, getMinLoadNode, hkeys]

theorem forEach_sendChangeMaster (newMasterNode : NodeInfo) {keys : List String}
    (hpeers : ∀ k ∈ keys, k ∈ c.context.nodeIdPeerIdMap) :
    ∃ others : List (String × PeerIdentity), others.map Prod.fst = keys ∧
      (∀ x ∈ others, c.context.nodeIdPeerIdMap.lookup x.1 = some x.2) ∧
      Outcome.forEach (sendChangeMaster newMasterNode) c keys = Outcome.ok { c with
        sent := c.sent ++
          others.map (fun x => (x.2,Message.changeMaster newMasterNode.getKey newMasterNode)) } := by
  induction keys generalizing c with
  | nil =>
    refine ⟨[],rfl,fun x hx => ?_,?_⟩
    · cases hx
    · rw [List.map_nil, List.append_nil]
      rfl
  | cons k keys ih =>
    obtain ⟨hk,hkeys⟩ := List.forall_mem_cons.mp hpeers
    obtain ⟨peerId,hp⟩ := AList.exists_lookup hk
    have hsend : sendChangeMaster newMasterNode c k =
        Outcome.ok (c.send peerId (Message.changeMaster newMasterNode.getKey newMasterNode)) := by
      simp only [sendChangeMaster, hp]
    obtain ⟨others,hothers,hlook,hrest⟩ :=
      ih (c := c.send peerId (Message.changeMaster newMasterNode.getKey newMasterNode)) hkeys
    refine ⟨(k,peerId) :: others,by rw [List.map_cons, hothers],?_,?_⟩
    · exact List.forall_mem_cons.mpr ⟨hp,hlook⟩
    · rw [Outcome.forEach_cons, hsend, Outcome.ok_andThen, hrest]
      simp [Center.send]

/-- An election among known nodes commands one of them and does not panic. -/
theorem electMaster_elects (hkeys : ∀ k, k ∈ c.context.nodeList ↔ k ∈ c.context.nodeState)
    (hpeers : ∀ k ∈ c.context.nodeList, k ∈ c.context.nodeIdPeerIdMap)
    (hkeyed : Keyed c.context.nodeList) {k : String} (hk : k ∈ c.context.nodeList) : (electMaster c).panic = none ∧
      ∃ k ∈ c.context.nodeList, commands (electMaster c).state.sent = commands c.sent ++ [k] := by
  obtain ⟨first,state,n,-,hn,hmin⟩ := getMinLoadNode_eq hkeys hk
  have hkey := hkeyed _ n hn
  rw [← hkey] at hn
  have hin : n.getKey ∈ c.context.nodeList := AList.mem_of_lookup hn
  obtain ⟨peerId,hp⟩ := AList.exists_lookup (hpeers _ hin)
  have hothers : ∀ k ∈ (c.context.nodeList.erase n.getKey).keys, k ∈ c.context.nodeIdPeerIdMap :=
    fun k hk => hpeers k (AList.mem_erase.mp (AList.mem_keys.mpr hk)).2
  obtain ⟨others,-,-,hloop⟩ := forEach_sendChangeMaster
    (c := c.send peerId (Message.convertToMaster n.getKey)) n hothers
  have htold : commands (others.map (fun x => (x.2,Message.changeMaster n.getKey n))) = [] := by
    simp [commands, Message.changeMaster]
  have hcommand : commands [(peerId,Message.convertToMaster n.getKey)] = [n.getKey] := rfl
  simp only [electMaster, hmin, hp, hloop]
  refine ⟨rfl,n.getKey,hin,?_⟩
  simp only [Outcome.ok_state, Center.send, commands_append, htold, hcommand, List.append_nil]

/-- A pass that lost the recorded master ends with an election. -/
theorem heartbeatMonitor_of_need {clock : String → ℤ} (hneed : c.context.needElectMaster clock = true) :
    ∃ c', heartbeatMonitor clock c = electMaster c' ∧ c'.sent = c.sent := by
  refine ⟨{ c with context :=
    { c.context with
      nodeState := c.context.nodeState.eraseAll (c.context.delList clock)
      nodeList := c.context.nodeList.eraseAll (c.context.delList clock)
      masterNode := none } },?_,rfl⟩
  simp only [heartbeatMonitor, hneed, if_true]

theorem heartbeatMonitor_of_not_need {clock : String → ℤ}
    (hneed : c.context.needElectMaster clock = false) : (heartbeatMonitor clock c).panic = none ∧
      (heartbeatMonitor clock c).state.sent = c.sent := by
  simp [heartbeatMonitor, hneed]

end

end GameServer.Registry
