import GameServer.Library.Run
import GameServer.Registry.Keeping
import GameServer.Server.Config

/-! # The tables of the registry

In a run the handlers and the passes of the monitor follow each other in any order,
with any clock readings. The node list and the state table keep the same keys as long
as no answer to a `ConvertToMaster` is handled after its sender was timed out.
-/
namespace GameServer.Registry
open Common Library

/-- The same context, its hash maps enumerated in any order. -/
structure AppContext.Same (ctx ctx' : AppContext) : Prop where
  nodeList : ctx.nodeList.Same ctx'.nodeList
  nodeState : ctx.nodeState.Same ctx'.nodeState
  masterNode : ctx'.masterNode = ctx.masterNode
  nodeIdPeerIdMap : ctx.nodeIdPeerIdMap.Same ctx'.nodeIdPeerIdMap

/-- The registry, the nodes that owe the answer to a `ConvertToMaster` sent since they registered,
and whether the monitor is alive: a pass that panics is the last one. -/
structure RegistryState where
  center : Center
  pending : List String
  monitoring : Bool

inductive RegistryAct
  | register (nodeInfo : NodeInfo) (nodeType : NodeType) (peerId : PeerIdentity) (now : ℤ)
  | report (clientId : String) (stateInfo : StateInfo) (peerId : PeerIdentity) (now : ℤ)
  | convertToMasterResp (nodeInfo : NodeInfo) (peerId : PeerIdentity) (now : ℤ)
  | pass (clock : String → ℤ)

namespace RegistryState

def start : RegistryState where
  center := Center.start
  pending := []
  monitoring := true

def next (s : RegistryState) : RegistryAct → RegistryState
  | .register nodeInfo nodeType peerId now =>
    { s with center := (handleMsgTask now (Message.register nodeInfo nodeType) peerId s.center).state }
  | .report clientId stateInfo peerId now =>
    { s with center := (handleMsgTask now (Message.stateReport clientId stateInfo) peerId s.center).state }
  | .convertToMasterResp nodeInfo peerId now =>
    { s with
      center := (handleMsgTask now (Message.convertToMasterResp nodeInfo) peerId s.center).state
      pending := s.pending.erase nodeInfo.getKey }
  | .pass clock =>
    let passed := heartbeatMonitor clock s.center
    { s with
      center := passed.state
      -- a node that registers anew after it was removed owes nothing
      pending := s.pending.filter (fun k => decide (k ∉ s.center.context.delList clock)) ++
        newCommands s.center passed.state
      monitoring := passed.panic.isNone }

/-- Only a node that was sent the command answers it. -/
def Admissible (s : RegistryState) : RegistryAct → Prop
  | .convertToMasterResp nodeInfo _ _ => nodeInfo.getKey ∈ commands s.center.sent
  | .pass _ => s.monitoring = true
  | _ => True

end RegistryState

inductive RegistryStep : RegistryState → Option RegistryAct → RegistryState → Prop
  | act {s : RegistryState} {a : RegistryAct} : s.Admissible a → RegistryStep s (some a) (s.next a)
  | reorder {s : RegistryState} {ctx : AppContext} : s.center.context.Same ctx →
      RegistryStep s none { s with center := { s.center with context := ctx } }

def registryLts : Lts RegistryState (Option RegistryAct) where
  init s := s = RegistryState.start
  step := RegistryStep

/-- The node list and the state table have the same keys, each with a peer, and the
recorded master is one of them. -/
structure AppContext.Tables (ctx : AppContext) : Prop where
  keys : ∀ k, k ∈ ctx.nodeList ↔ k ∈ ctx.nodeState
  peers : ∀ k ∈ ctx.nodeList, k ∈ ctx.nodeIdPeerIdMap
  master : ∀ m, ctx.masterNode = some m → m.getKey ∈ ctx.nodeList

/-- An answer is handled while its sender is in the state table. -/
def RegistryState.InTime (s : RegistryState) : Option RegistryAct → Prop
  | some (.convertToMasterResp nodeInfo _ _) => nodeInfo.getKey ∈ s.center.context.nodeState
  | _ => True

/-! ## What each step does to the tables -/

section
variable {ctx : AppContext}

theorem tables_same {ctx' : AppContext} (h : ctx.Tables) (hs : ctx.Same ctx') : ctx'.Tables where
  keys k := by
    rw [hs.nodeList.mem_iff, hs.nodeState.mem_iff]
    exact h.keys k
  peers k hk := by
    rw [hs.nodeList.mem_iff] at hk
    rw [hs.nodeIdPeerIdMap.mem_iff]
    exact h.peers k hk
  master m hm := by
    rw [hs.masterNode] at hm
    rw [hs.nodeList.mem_iff]
    exact h.master m hm

/-- A registration completes the three tables, and the master it may have recorded before. -/
theorem tables_insertNode {c : Center} (hkeys : ∀ k, k ∈ c.context.nodeList ↔ k ∈ c.context.nodeState)
    (hpeers : ∀ k ∈ c.context.nodeList, k ∈ c.context.nodeIdPeerIdMap) {nodeInfo : NodeInfo}
    (hmaster : ∀ m, c.context.masterNode = some m → m = nodeInfo ∨ m.getKey ∈ c.context.nodeList)
    (now : ℤ) (peerId : PeerIdentity) :
    (c.insertNode now nodeInfo.getKey nodeInfo peerId).context.Tables where
  keys k := by
    simp only [Center.insertNode, AList.mem_insert]
    exact or_congr Iff.rfl (hkeys k)
  peers k hk := by
    simp only [Center.insertNode, AList.mem_insert] at hk ⊢
    exact hk.imp_right (hpeers k)
  master m hm := by
    simp only [Center.insertNode, AList.mem_insert]
    exact (hmaster m hm).imp_left (congrArg NodeInfo.getKey)

theorem tables_register {c c' : Center} (h : c.context.Tables) {now : ℤ} {nodeInfo : NodeInfo}
    {peerId : PeerIdentity} (he : RegisterEffect now nodeInfo peerId c c') : c'.context.Tables := by
  cases he with
  | refused reason => exact h
  | slave hnot ht hm =>
    exact tables_insertNode h.keys h.peers (fun m hm => Or.inr (h.master m hm)) now peerId
  | master hnot ht hm =>
    apply tables_insertNode (c := c.setMasterNode nodeInfo) h.keys h.peers
    intro m hm
    exact Or.inl (Option.some.inj hm).symm

theorem tables_report {c : Center} (h : c.context.Tables) (now : ℤ) (clientId : String)
    (stateInfo : StateInfo) (peerId : PeerIdentity) :
    (handleMsgTask now (Message.stateReport clientId stateInfo) peerId c).state.context.Tables := by
  rw [handleReport_eq]
  exact ⟨fun k => (h.keys k).trans AList.mem_adjust.symm,h.peers,h.master⟩

theorem tables_pass {c : Center} (h : c.context.Tables) (clock : String → ℤ) :
    (heartbeatMonitor clock c).state.context.Tables := by
  rw [heartbeatMonitor_context]
  refine ⟨?_,?_,?_⟩
  · intro k
    simp only [AList.mem_eraseAll]
    exact and_congr_left' (h.keys k)
  · intro k hk
    exact h.peers k (AList.mem_eraseAll.mp hk).1
  · intro m hm
    dsimp only at hm
    split at hm
    · cases hm
    · rename_i hneed
      refine AList.mem_eraseAll.mpr ⟨h.master m hm,?_⟩
      intro hdel
      exact hneed (needElectMaster_iff.mpr ⟨m,hm,hdel⟩)

/-- The answer of a node the state table knows only renews what the tables hold. -/
theorem tables_convertToMasterResp {c : Center} (h : c.context.Tables) {nodeInfo : NodeInfo}
    (hin : nodeInfo.getKey ∈ c.context.nodeState) (now : ℤ) (peerId : PeerIdentity) :
    (handleMsgTask now (Message.convertToMasterResp nodeInfo) peerId c).state.context.Tables := by
  have hlist := (h.keys _).mpr hin
  have hmem : ∀ k, k ∈ c.context.nodeList.insert nodeInfo.getKey nodeInfo ↔ k ∈ c.context.nodeList := by
    intro k
    rw [AList.mem_insert]
    constructor
    · rintro (rfl | hk)
      · exact hlist
      · exact hk
    · exact Or.inr
  rw [handleConvertToMasterResp_eq]
  refine ⟨fun k => (hmem k).trans (h.keys k),fun k hk => h.peers k ((hmem k).mp hk),?_⟩
  intro m hm
  obtain rfl : nodeInfo = m := Option.some.inj hm
  exact (hmem _).mpr hlist

theorem tables_step {s t : RegistryState} {a : Option RegistryAct} (h : s.center.context.Tables)
    (hc : s.InTime a) (hst : RegistryStep s a t) : t.center.context.Tables := by
  cases hst with
  | reorder hs => exact tables_same h hs
  | @act a ha =>
    cases a with
    | register nodeInfo nodeType peerId now =>
      obtain ⟨c',he,heff⟩ := registerEffect now nodeInfo nodeType peerId s.center
      simp only [RegistryState.next, he, Outcome.ok_state]
      exact tables_register h heff
    | report clientId stateInfo peerId now => exact tables_report h now clientId stateInfo peerId
    | convertToMasterResp nodeInfo peerId now => exact tables_convertToMasterResp h hc now peerId
    | pass clock => exact tables_pass h clock

/-- An answer that comes too late puts its sender into the node list only. -/
theorem inTime_of_tables {s t : RegistryState} {a : Option RegistryAct} (hst : RegistryStep s a t)
    (h : t.center.context.Tables) : s.InTime a := by
  cases hst with
  | reorder hs => trivial
  | @act a ha =>
    cases a with
    | convertToMasterResp nodeInfo peerId now =>
      have hk := h.keys nodeInfo.getKey
      simp only [RegistryState.next, handleConvertToMasterResp_eq, Outcome.ok_state] at hk
      exact hk.mp ((AList.mem_insert _).mpr (Or.inl rfl))
    | _ => trivial

/-- The tables agree throughout a run exactly if every answer is handled while its sender
is in the state table. -/
theorem tables_always_iff {past : List (RegistryState × Option RegistryAct)} {s : RegistryState}
    (h : Run registryLts past s) :
    Run.Always (fun s => s.center.context.Tables) past s ↔ ∀ p ∈ past, p.1.InTime p.2 := by
  apply Run.always_iff (I := fun s => s.center.context.Tables) _ _ _ _ h
  · rintro s rfl
    refine ⟨fun k => Iff.rfl,fun k hk => ?_,fun m hm => by cases hm⟩
    exact absurd hk (AList.notMem_empty k)
  · exact fun s hs => hs
  · exact fun s a t hs hc hst => tables_step hs hc hst
  · exact fun s a t _ hst ht => inTime_of_tables hst ht

end

/-! ## The nodes of `conf.toml` and `slave1.toml` -/

instance (s : RegistryState) (a : RegistryAct) : Decidable (s.Admissible a) :=
  match a with
  | .convertToMasterResp nodeInfo _ _ => inferInstanceAs (Decidable (nodeInfo.getKey ∈ commands s.center.sent))
  | .pass _ => inferInstanceAs (Decidable (s.monitoring = true))
  | .register _ _ _ _ => isTrue trivial
  | .report _ _ _ _ => isTrue trivial

instance (s : RegistryState) (a : Option RegistryAct) : Decidable (s.InTime a) :=
  match a with
  | some (.convertToMasterResp nodeInfo _ _) =>
    inferInstanceAs (Decidable (nodeInfo.getKey ∈ s.center.context.nodeState))
  | some (.register _ _ _ _) => isTrue trivial
  | some (.report _ _ _ _) => isTrue trivial
  | some (.pass _) => isTrue trivial
  | none => isTrue trivial

theorem run_acts (acts : List RegistryAct)
    (ha : Run.Allowed RegistryState.next RegistryState.Admissible RegistryState.start acts) :
    Run registryLts (Run.record RegistryState.next some RegistryState.start acts ++ [])
      (acts.foldl RegistryState.next RegistryState.start) :=
  Run.of_acts RegistryState.next RegistryState.Admissible some (fun _ _ h => RegistryStep.act h)
    (Run.start rfl) ha

def heir : NodeInfo := Server.GameServerConf.slave.node

def heirAnswers : RegistryAct := .convertToMasterResp { heir with nodeType := .Master } "heir" 7000

/-- The master and the heir register, and the master falls silent. -/
def masterLost : List RegistryAct :=
  let master := Server.GameServerConf.master.node
  [.register master .Master "master" 0,.register heir .Slave "heir" 0,
    .pass (fun k => if k = master.getKey then 6000 else 0)]

theorem tables_always_first_election :
    Run.Always (fun s => s.center.context.Tables)
      (Run.record RegistryState.next some RegistryState.start (masterLost ++ [heirAnswers]) ++ [])
      ((masterLost ++ [heirAnswers]).foldl RegistryState.next RegistryState.start) := by
  apply (tables_always_iff (run_acts _ (by decide +kernel))).mpr
  decide +kernel

/-- The heir falls silent too, and its answer arrives after it was removed. -/
theorem tables_broken_by_late_answer :
    ∃ past s, Run registryLts past s ∧ ¬ s.center.context.Tables := by
  refine ⟨_,_,run_acts (masterLost ++ [.pass (fun _ => 6000),heirAnswers]) (by decide +kernel),?_⟩
  intro h
  have hlist : heir.getKey ∈ ((masterLost ++ [.pass (fun _ => 6000),heirAnswers]).foldl
      RegistryState.next RegistryState.start).center.context.nodeList := by decide +kernel
  have hstate : heir.getKey ∉ ((masterLost ++ [.pass (fun _ => 6000),heirAnswers]).foldl
      RegistryState.next RegistryState.start).center.context.nodeState := by decide +kernel
  exact hstate ((h.keys _).mp hlist)

end GameServer.Registry
