import GameServer.Registry.Tables
import Mathlib.Data.Prod.Lex

/-! # Which node a client is sent to

The comparison of `get_min_load_node` is a lexicographic order of three numbers, so its scan
finds a least node from any start and in any order. A client is sent to a least loaded
node other than the master, unless that one is full, and then all of them are.
-/
namespace GameServer.Registry
open Common Library

structure Resp (T : Type) where
  data : T
  code : UInt32
  message : String

namespace Resp
variable {T : Type}

def success (data : T) : Resp T where
  data := data
  code := 21000000
  message := "success"

def fail (data : T) : Resp T where
  data := data
  code := 500
  message := "fail"

def Succeeds (r : Resp T) : Prop := r.code = 21000000

theorem succeeds_success (data : T) : (success data).Succeeds := rfl

end Resp

def returnNoAvailableServerNode : Resp NodeInfo :=
  { Resp.fail NodeInfo.default with code := 500, message := "no available server node" }

theorem not_succeeds_returnNoAvailableServerNode : ¬ returnNoAvailableServerNode.Succeeds := by
  unfold Resp.Succeeds
  decide

/-- The unwraps of the handler that can fail: on the master, on the state of the first node
of the scan and on the state of the node it chose. -/
inductive ConnectionPanic
  | masterMissing
  | firstStateMissing
  | chosenStateMissing
deriving DecidableEq

/-- The handler after its reads. -/
def balance (nodeStateList : HashMap String NodeState) (nodeList : HashMap String NodeInfo)
    (masterNode : Option NodeInfo) : Except ConnectionPanic (Resp NodeInfo) :=
  match nodeList.values with
  | [] => .ok returnNoAvailableServerNode
  | [nodeInfo] => .ok (Resp.success nodeInfo)
  | _ =>
    match masterNode with
    | none => .error .masterMissing
    | some masterNode =>
      let nodeStateList := nodeStateList.erase masterNode.getKey
      let nodeList := nodeList.erase masterNode.getKey
      match getMinLoadNode nodeStateList nodeList with
      | .error _ => .error .firstStateMissing
      | .ok none => .ok returnNoAvailableServerNode
      | .ok (some node) =>
        match nodeStateList.lookup node.getKey with
        | none => .error .chosenStateMissing
        | some state =>
          if state.stateInfo.loadFactor < 1 then .ok (Resp.success node)
          else .ok returnNoAvailableServerNode

/-- The handler on a state that does not change between its reads. -/
def getLoadBanlanceConnection (ctx : AppContext) : Except ConnectionPanic (Resp NodeInfo) :=
  balance ctx.nodeState ctx.nodeList ctx.masterNode

/-! ## The order of loads -/

/-- Ascending load, descending size, ascending number of connections. -/
def loadOrder (s : StateInfo) : ℚ ×ₗ ℕᵒᵈ ×ₗ ℕ :=
  toLex (s.loadFactor,toLex (OrderDual.toDual s.maxConnection.toNat,s.currentConnection.toNat))

theorem preferred_iff (s t : StateInfo) : preferred s t = true ↔ loadOrder s < loadOrder t := by
  unfold preferred loadOrder
  rw [Prod.Lex.toLex_lt_toLex, Prod.Lex.toLex_lt_toLex, OrderDual.toDual_lt_toDual]
  simp only [gt_iff_lt, UInt32.lt_iff_toNat_lt, EmbeddingLike.apply_eq_iff_eq, UInt32.toNat_inj]
  by_cases hload : s.loadFactor < t.loadFactor
  · simp [hload]
  · by_cases heq : s.loadFactor = t.loadFactor
    · by_cases hmax : t.maxConnection.toNat < s.maxConnection.toNat
      · simp [heq, hmax]
      · by_cases hmeq : s.maxConnection = t.maxConnection
        · simp [heq, hmeq]
        · simp [heq, hmax, hmeq]
    · simp [hload, heq]

/-- The loop ends with a least element of its start and the states. -/
theorem minLoad_le (start : Σ _ : String, NodeState) (states : List (Σ _ : String, NodeState)) :
    ∀ e ∈ start :: states, loadOrder (minLoad start states).2.stateInfo ≤ loadOrder e.2.stateInfo := by
  induction states generalizing start with
  | nil =>
    intro e he
    rw [List.mem_singleton.mp he]
    exact le_rfl
  | cons a states ih =>
    have hfold : minLoad start (a :: states) =
        minLoad (if preferred a.2.stateInfo start.2.stateInfo then a else start) states := rfl
    rw [hfold]
    split
    · rename_i hp
      have hlt := (preferred_iff _ _).mp hp
      have hle := ih a
      intro e he
      rcases List.mem_cons.mp he with rfl | he
      · exact (hle a List.mem_cons_self).trans hlt.le
      · exact hle e he
    · rename_i hp
      have hnot : loadOrder start.2.stateInfo ≤ loadOrder a.2.stateInfo :=
        not_lt.mp (fun hlt => hp ((preferred_iff _ _).mpr hlt))
      have hle := ih start
      intro e he
      rcases List.mem_cons.mp he with rfl | he
      · exact hle _ List.mem_cons_self
      · rcases List.mem_cons.mp he with rfl | he
        · exact (hle start List.mem_cons_self).trans hnot
        · exact hle e (List.mem_cons_of_mem _ he)

/-- The entry under a key whose state is least in a table. -/
structure Least (states : HashMap String NodeState) (nodes : HashMap String NodeInfo) (k : String)
    (node : NodeInfo) (state : NodeState) : Prop where
  listed : nodes.lookup k = some node
  stored : states.lookup k = some state
  least : ∀ k' s, states.lookup k' = some s → loadOrder state.stateInfo ≤ loadOrder s.stateInfo

/-- On two tables with the same keys the scan returns a node of least load. -/
theorem getMinLoadNode_least {states : HashMap String NodeState} {nodes : HashMap String NodeInfo}
    (hkeys : ∀ k, k ∈ nodes ↔ k ∈ states) {k : String} (hk : k ∈ nodes) :
    ∃ k node state, getMinLoadNode states nodes = .ok (some node) ∧ Least states nodes k node state := by
  obtain ⟨first,state,node,hstate,hnode,hscan⟩ := getMinLoadNode_eq hkeys hk
  refine ⟨_,node,_,hscan,hnode,minLoad_stored hstate,?_⟩
  intro k' s hs
  exact minLoad_le _ _ ⟨k',s⟩ (List.mem_cons_of_mem _ (AList.mem_entries_iff.mpr hs))

/-! ## The answer of the handler -/

theorem exists_values {nodes : HashMap String NodeInfo} (htwo : 2 ≤ nodes.entries.length) :
    ∃ n n' rest, nodes.values = n :: n' :: rest := by
  have hlen : 2 ≤ nodes.values.length := by
    unfold AList.values
    rwa [List.length_map]
  cases hv : nodes.values with
  | nil =>
    rw [hv] at hlen
    cases hlen
  | cons n rest =>
    cases rest with
    | nil =>
      rw [hv, List.length_singleton] at hlen
      omega
    | cons n' rest => exact ⟨n,n',rest,rfl⟩

/-- On two nodes or more the handler needs the master. -/
theorem balance_none {states : HashMap String NodeState} {nodes : HashMap String NodeInfo}
    (htwo : 2 ≤ nodes.entries.length) : balance states nodes none = .error .masterMissing := by
  obtain ⟨n,n',rest,hv⟩ := exists_values htwo
  simp only [balance, hv]

/-- The handler on two nodes or more with a recorded master. -/
theorem balance_some {states : HashMap String NodeState} {nodes : HashMap String NodeInfo}
    (htwo : 2 ≤ nodes.entries.length) (m : NodeInfo) : balance states nodes (some m) =
      match getMinLoadNode (states.erase m.getKey) (nodes.erase m.getKey) with
      | .error _ => .error .firstStateMissing
      | .ok none => .ok returnNoAvailableServerNode
      | .ok (some node) =>
        match (states.erase m.getKey).lookup node.getKey with
        | none => .error .chosenStateMissing
        | some state =>
          if state.stateInfo.loadFactor < 1 then .ok (Resp.success node)
          else .ok returnNoAvailableServerNode := by
  obtain ⟨n,n',rest,hv⟩ := exists_values htwo
  simp only [balance, hv]

theorem exists_mem_erase {nodes : HashMap String NodeInfo} (htwo : 2 ≤ nodes.entries.length) (k : String) :
    ∃ k', k' ∈ nodes.erase k := by
  have hlen : nodes.keys.length = nodes.entries.length := List.length_map _
  have hle : nodes.keys.length - 1 ≤ (nodes.keys.erase k).length := List.le_length_erase
  obtain ⟨k',hk'⟩ := List.exists_mem_of_length_pos (l := nodes.keys.erase k) (by omega)
  refine ⟨k',?_⟩
  rw [AList.mem_keys, AList.keys_erase]
  exact hk'

/-- On tables with the same keys, of two nodes or more with the recorded master among them, the
handler answers with a node of least load other than the master, and it finds none exactly if
all of them are full. The scan alone returns a node of least load of all. -/
theorem least_loaded {ctx : AppContext} (hkeys : ∀ k, k ∈ ctx.nodeList ↔ k ∈ ctx.nodeState)
    (hkeyed : Keyed ctx.nodeList) (htwo : 2 ≤ ctx.nodeList.entries.length) {m : NodeInfo}
    (hm : ctx.masterNode = some m) :
    (∃ r, getLoadBanlanceConnection ctx = .ok r ∧
      (r.Succeeds ↔ ∃ k state, k ≠ m.getKey ∧ ctx.nodeState.lookup k = some state ∧
        state.stateInfo.loadFactor < 1) ∧
      (r.Succeeds → r.data.getKey ≠ m.getKey ∧ ctx.nodeList.lookup r.data.getKey = some r.data ∧
        ∃ state, ctx.nodeState.lookup r.data.getKey = some state ∧
          ∀ k s, k ≠ m.getKey → ctx.nodeState.lookup k = some s →
            loadOrder state.stateInfo ≤ loadOrder s.stateInfo)) ∧
    ∀ (states : HashMap String NodeState) (nodes : HashMap String NodeInfo),
      (∀ k, k ∈ nodes ↔ k ∈ states) → (∃ k, k ∈ nodes) →
      ∃ k node state, getMinLoadNode states nodes = .ok (some node) ∧ Least states nodes k node state := by
  refine ⟨?_,fun states nodes hkeys ⟨k,hk⟩ => getMinLoadNode_least hkeys hk⟩
  have hrest : ∀ k, k ∈ ctx.nodeList.erase m.getKey ↔ k ∈ ctx.nodeState.erase m.getKey := by
    intro k
    rw [AList.mem_erase, AList.mem_erase, hkeys]
  obtain ⟨k',hk'⟩ := exists_mem_erase htwo m.getKey
  obtain ⟨k,node,state,hscan,hleast⟩ := getMinLoadNode_least hrest hk'
  obtain ⟨hne,hlisted⟩ := AList.lookup_of_lookup_erase hleast.listed
  obtain ⟨-,hstored⟩ := AList.lookup_of_lookup_erase hleast.stored
  obtain rfl := hkeyed k node hlisted
  have hmin : ∀ k s, k ≠ m.getKey → ctx.nodeState.lookup k = some s →
      loadOrder state.stateInfo ≤ loadOrder s.stateInfo := by
    intro k s hkne hs
    exact hleast.least k s (by rw [AList.lookup_erase_eq, if_neg hkne, hs])
  unfold getLoadBanlanceConnection
  rw [hm, balance_some htwo m, hscan]
  dsimp only
  rw [hleast.stored]
  dsimp only
  split
  · rename_i hfree
    refine ⟨_,rfl,iff_of_true (Resp.succeeds_success _) ⟨_,state,hne,hstored,hfree⟩,
      fun _ => ⟨hne,hlisted,state,hstored,hmin⟩⟩
  · rename_i hfull
    refine ⟨_,rfl,iff_of_false not_succeeds_returnNoAvailableServerNode ?_,
      fun h => absurd h not_succeeds_returnNoAvailableServerNode⟩
    rintro ⟨k,s,hkne,hs,hfree⟩
    -- a node that is not full would be less loaded than the least one
    have hle := hmin k s hkne hs
    unfold loadOrder at hle
    rw [Prod.Lex.toLex_le_toLex] at hle
    rcases hle with hlt | ⟨heq,-⟩
    · exact hfull (hlt.trans hfree)
    · exact hfull (lt_of_eq_of_lt heq hfree)

def twoNodes : Center :=
  let master := Server.GameServerConf.master.node
  ((Center.start.setMasterNode master).insertNode 0 master.getKey master "master").insertNode 0
    heir.getKey heir "heir"

theorem tables_twoNodes : twoNodes.context.Tables := by
  have hempty : ∀ k, k ∉ (Center.start.setMasterNode Server.GameServerConf.master.node).context.nodeList :=
    fun k => AList.notMem_empty k
  have hone := tables_insertNode (c := Center.start.setMasterNode Server.GameServerConf.master.node)
    (fun k => Iff.rfl) (fun k hk => absurd hk (hempty k)) (fun m hm => Or.inl (Option.some.inj hm).symm)
    0 "master"
  exact tables_insertNode hone.keys hone.peers (fun m hm => Or.inr (hone.master m hm)) 0 "heir"

theorem keyed_twoNodes : Keyed twoNodes.context.nodeList :=
  keyed_insert (keyed_insert keyed_empty Server.GameServerConf.master.node) heir

def reportedLoad (loadFactor : ℚ) : StateInfo :=
  { StateInfo.default with maxConnection := 100, loadFactor := loadFactor }

/-- A third node registers, and the two slaves report different loads. -/
def threeLoads : Center :=
  let other := Server.GameServerConf.slave2.node
  let c := twoNodes.insertNode 0 other.getKey other "other"
  let c := (handleMsgTask 1000 (Message.stateReport heir.getKey (reportedLoad (1 / 2))) "heir" c).state
  (handleMsgTask 1000 (Message.stateReport other.getKey (reportedLoad (1 / 4))) "other" c).state

theorem tables_threeLoads : threeLoads.context.Tables := by
  let other := Server.GameServerConf.slave2.node
  have hthree : (twoNodes.insertNode 0 other.getKey other "other").context.Tables :=
    tables_insertNode tables_twoNodes.keys tables_twoNodes.peers
      (fun m hm => Or.inr (tables_twoNodes.master m hm)) 0 "other"
  exact tables_report (tables_report hthree 1000 heir.getKey (reportedLoad (1 / 2)) "heir") 1000
    other.getKey (reportedLoad (1 / 4)) "other"

theorem keyed_threeLoads : Keyed threeLoads.context.nodeList :=
  keyed_insert keyed_twoNodes Server.GameServerConf.slave2.node

theorem loadFactor_le {s t : StateInfo} (h : loadOrder s ≤ loadOrder t) : s.loadFactor ≤ t.loadFactor := by
  unfold loadOrder at h
  rw [Prod.Lex.toLex_le_toLex] at h
  exact h.elim le_of_lt (fun h => h.1.le)

theorem least_loaded_threeLoads : ∃ r, getLoadBanlanceConnection threeLoads.context = .ok r ∧ r.Succeeds ∧
    r.data.getKey = Server.GameServerConf.slave2.node.getKey := by
  obtain ⟨⟨r,hr,hiff,hnode⟩,-⟩ := least_loaded tables_threeLoads.keys keyed_threeLoads (by decide +kernel)
    (rfl : threeLoads.context.masterNode = some Server.GameServerConf.master.node)
  have hother : threeLoads.context.nodeState.lookup Server.GameServerConf.slave2.node.getKey =
      some { lastHeartbeatTime := 1000, stateInfo := reportedLoad (1 / 4) } := by decide +kernel
  have hne : Server.GameServerConf.slave2.node.getKey ≠ Server.GameServerConf.master.node.getKey := by
    decide +kernel
  have hs : r.Succeeds := hiff.mpr ⟨_,_,hne,hother,by decide +kernel⟩
  obtain ⟨hmaster,-,state,hstate,hmin⟩ := hnode hs
  have hle := loadFactor_le (hmin _ _ hne hother)
  have honly : ∀ e ∈ threeLoads.context.nodeState.entries, e.1 = Server.GameServerConf.slave2.node.getKey ∨
      e.1 = Server.GameServerConf.master.node.getKey ∨ ¬ e.2.stateInfo.loadFactor ≤ 1 / 4 := by decide +kernel
  refine ⟨r,hr,hs,?_⟩
  rcases honly ⟨_,state⟩ (AList.mem_entries_iff.mpr hstate) with he | he | he
  · exact he
  · exact absurd he hmaster
  · exact absurd hle he

end GameServer.Registry
