import GameServer.Registry.Balancing
import GameServer.Registry.Interleaving

/-! # Requests for a connection

The web handler takes the lock three times, for the states, the nodes and the master, and
every other task may run in between. It answers as long as a master is recorded when it reads
it, and the first node it then looks at was in the states it has read.
-/
namespace GameServer.Registry
open Common Library

/-- What a request does when it gets the lock next. -/
inductive ConnectionPc
  | readNodeState
  | readNodeList (nodeStateList : HashMap String NodeState)
  | readMasterNode (nodeStateList : HashMap String NodeState) (nodeList : HashMap String NodeInfo)

abbrev Answer := Except ConnectionPanic (Resp NodeInfo)

namespace ConnectionPc

/-- One locked section: the request goes on, or it ends. -/
def locked (ctx : AppContext) : ConnectionPc → ConnectionPc ⊕ Answer
  | readNodeState => .inl (readNodeList ctx.nodeState)
  | readNodeList nodeStateList =>
    match ctx.nodeList.values with
    | [] => .inr (.ok returnNoAvailableServerNode)
    | [nodeInfo] => .inr (.ok (Resp.success nodeInfo))
    | _ => .inl (readMasterNode nodeStateList ctx.nodeList)
  | readMasterNode nodeStateList nodeList => .inr (balance nodeStateList nodeList ctx.masterNode)

/-- The request runs without interruption; it has three sections at most. -/
def alone (ctx : AppContext) : ℕ → ConnectionPc → Option Answer
  | 0, _ => none
  | n + 1, pc =>
    match pc.locked ctx with
    | .inl pc => alone ctx n pc
    | .inr answer => some answer

end ConnectionPc

/-- A request that is not interrupted ends as the handler does on an unchanged state. -/
theorem alone_eq_getLoadBanlanceConnection (ctx : AppContext) :
    ConnectionPc.readNodeState.alone ctx 3 = some (getLoadBanlanceConnection ctx) := by
  simp only [ConnectionPc.alone, ConnectionPc.locked, getLoadBanlanceConnection]
  cases hv : ctx.nodeList.values with
  | nil => simp only [balance, hv]
  | cons n rest =>
    cases rest with
    | nil => simp only [balance, hv]
    | cons n' rest => rfl

/-- The registry with its web interface: the requests under way, and how the others ended. -/
structure Consulted where
  registry : Interleaved
  requests : List ConnectionPc
  answers : List Answer

inductive ConsultAct
  | registry (a : InterleavedAct)
  | ask
  | read (k : ℕ)

namespace Consulted

def start : Consulted where
  registry := Interleaved.start
  requests := []
  answers := []

def read (s : Consulted) (k : ℕ) : Consulted :=
  match s.requests[k]? with
  | none => s
  | some pc =>
    match pc.locked s.registry.center.context with
    | .inl pc => { s with requests := s.requests.set k pc }
    | .inr answer => { s with requests := s.requests.eraseIdx k, answers := s.answers ++ [answer] }

def next (s : Consulted) : ConsultAct → Consulted
  | .registry a => { s with registry := s.registry.next a }
  | .ask => { s with requests := s.requests ++ [.readNodeState] }
  | .read k => s.read k

def Admissible (s : Consulted) : ConsultAct → Prop
  | .registry a => s.registry.Admissible a
  | _ => True

def NoPanic (s : Consulted) : Prop := ∀ a ∈ s.answers, ∃ r, a = .ok r ∧
  (r = returnNoAvailableServerNode ∨ ∃ node, r = Resp.success node)

end Consulted

/-- A request with several nodes before it finds a master, and the first node left was in the
state table when the request read it. -/
def ConnectionPc.Ready (ctx : AppContext) : ConnectionPc → Prop
  | .readMasterNode nodeStateList nodeList => ∃ m, ctx.masterNode = some m ∧
      ∀ first ∈ (nodeList.erase m.getKey).keys.head?, first ∈ nodeStateList
  | _ => True

def Consulted.Ready (s : Consulted) : Option ConsultAct → Prop
  | some (.read k) => ∀ pc ∈ s.requests[k]?, pc.Ready s.registry.center.context
  | _ => True

inductive ConsultStep : Consulted → Option ConsultAct → Consulted → Prop
  | act {s : Consulted} {a : ConsultAct} : s.Admissible a → ConsultStep s (some a) (s.next a)
  | reorder {s : Consulted} {ctx : AppContext} : s.registry.center.context.Same ctx →
      ConsultStep s none
        { s with registry := { s.registry with center := { s.registry.center with context := ctx } } }

def consultLts : Lts Consulted (Option ConsultAct) where
  init s := s = Consulted.start
  step := ConsultStep

/-! ## When a request is answered -/

/-- What the third section needs, and no more. -/
theorem balance_answers_iff {states : HashMap String NodeState} {nodes : HashMap String NodeInfo}
    (hkeyed : Keyed nodes) (htwo : 2 ≤ nodes.entries.length) (ctx : AppContext) :
    (∃ r, balance states nodes ctx.masterNode = .ok r ∧
      (r = returnNoAvailableServerNode ∨ ∃ node, r = Resp.success node)) ↔
    (ConnectionPc.readMasterNode states nodes).Ready ctx := by
  cases hm : ctx.masterNode with
  | none =>
    rw [balance_none htwo]
    refine iff_of_false (by simp) ?_
    rintro ⟨m,hm',-⟩
    rw [hm] at hm'
    cases hm'
  | some m =>
    obtain ⟨k,hk⟩ := exists_mem_erase htwo m.getKey
    obtain ⟨first,rest,hl,hfirst⟩ := exists_first hk
    have hne : first ≠ m.getKey := (AList.mem_erase.mp hfirst).1
    have hready : (ConnectionPc.readMasterNode states nodes).Ready ctx ↔ first ∈ states := by
      constructor
      · rintro ⟨m',hm',h⟩
        obtain rfl := Option.some.inj (hm.symm.trans hm')
        exact h first (by rw [hl]; rfl)
      · intro h
        refine ⟨m,hm,?_⟩
        intro first' hfirst'
        rw [hl] at hfirst'
        obtain rfl := Option.some.inj hfirst'
        exact h
    rw [hready, balance_some htwo m]
    cases hstate : (states.erase m.getKey).lookup first with
    | none =>
      have hnot : first ∉ states := by
        rw [AList.lookup_erase_eq, if_neg hne] at hstate
        exact AList.lookup_eq_none.mp hstate
      simp only [getMinLoadNode, hl, hstate]
      exact iff_of_false (by simp) hnot
    | some state =>
      have hin : first ∈ states :=
        AList.mem_of_lookup (AList.lookup_of_lookup_erase hstate).2
      refine iff_of_true ?_ hin
      have hstored := minLoad_stored hstate
      simp only [getMinLoadNode, hl, hstate]
      cases hnode : (nodes.erase m.getKey).lookup
          (minLoad ⟨first,state⟩ (states.erase m.getKey).entries).1 with
      | none => exact ⟨_,rfl,Or.inl rfl⟩
      | some node =>
        have hchosen : (states.erase m.getKey).lookup node.getKey =
            some (minLoad ⟨first,state⟩ (states.erase m.getKey).entries).2 := by
          rw [keyed_erase hkeyed m.getKey _ node hnode]
          exact hstored
        simp only [hchosen]
        split
        · exact ⟨_,rfl,Or.inr ⟨node,rfl⟩⟩
        · exact ⟨_,rfl,Or.inl rfl⟩

/-! ## The listed nodes and the snapshots of the requests -/

/-- What holds of every interleaving, whatever the requests do. -/
structure Consulted.Keys (s : Consulted) : Prop where
  keyed : Keyed s.registry.center.context.nodeList
  tasks : ∀ t ∈ s.registry.tasks, t.OfNode
  snapshots : ∀ states nodes, .readMasterNode states nodes ∈ s.requests →
    Keyed nodes ∧ 2 ≤ nodes.entries.length

theorem keyed_run {s : Interleaved} (h : Keyed s.center.context.nodeList) (ht : ∀ t ∈ s.tasks, t.OfNode)
    (k : ℕ) (now : ℤ) : Keyed (s.run k now).center.context.nodeList := by
  cases hk : s.tasks[k]? with
  | none =>
    simp only [Interleaved.run, hk]
    exact h
  | some t =>
    simp only [Interleaved.run, hk]
    cases lockedEffect now s.center t with
    | checks hctx hans =>
      rw [hctx]
      exact h
    | records nodeInfo hp hctx hans =>
      rw [hctx]
      exact h
    | inserts nodeInfo hp hctx hans =>
      have hnode := ht t (List.mem_of_getElem? hk)
      simp only [RegisterTask.OfNode, hp] at hnode
      rw [hctx, hnode]
      exact keyed_insert h nodeInfo

theorem keyed_next {s : Interleaved} (h : Keyed s.center.context.nodeList) (ht : ∀ t ∈ s.tasks, t.OfNode)
    (a : InterleavedAct) : Keyed (s.next a).center.context.nodeList ∧ ∀ t ∈ (s.next a).tasks, t.OfNode := by
  cases a with
  | arrive nodeInfo nodeType peerId => exact ⟨h,tasks_arrive ht nodeInfo nodeType peerId⟩
  | run k now => exact ⟨keyed_run h ht k now,tasks_run ht k now⟩
  | report clientId stateInfo peerId now => exact ⟨h,ht⟩
  | convertToMasterResp nodeInfo peerId now => exact ⟨keyed_insert h nodeInfo,ht⟩
  | pass clock =>
    refine ⟨?_,ht⟩
    simp only [Interleaved.next, heartbeatMonitor_context]
    exact keyed_eraseAll h _

/-- A section that keeps a snapshot of the nodes keeps the current ones, and there are several. -/
theorem locked_readMasterNode {ctx : AppContext} {pc : ConnectionPc} {states : HashMap String NodeState}
    {nodes : HashMap String NodeInfo} (h : pc.locked ctx = .inl (.readMasterNode states nodes)) :
    nodes = ctx.nodeList ∧ 2 ≤ nodes.entries.length := by
  cases pc with
  | readNodeState => cases h
  | readMasterNode states nodes => cases h
  | readNodeList states =>
    simp only [ConnectionPc.locked] at h
    split at h
    · cases h
    · cases h
    · rename_i hnone hone
      cases h
      refine ⟨rfl,?_⟩
      have hlen : ctx.nodeList.values.length = ctx.nodeList.entries.length := List.length_map _
      rw [← hlen]
      cases hv : ctx.nodeList.values with
      | nil => exact absurd hv hnone
      | cons n rest =>
        cases rest with
        | nil => exact absurd hv (hone n)
        | cons n' rest => simp

/-- How a section ends a request, if the request was ready for it. -/
theorem locked_answers_iff {ctx : AppContext} {pc : ConnectionPc} {answer : Answer}
    (hpc : ∀ states nodes, pc = .readMasterNode states nodes → Keyed nodes ∧ 2 ≤ nodes.entries.length)
    (h : pc.locked ctx = .inr answer) :
    (∃ r, answer = .ok r ∧ (r = returnNoAvailableServerNode ∨ ∃ node, r = Resp.success node)) ↔
      pc.Ready ctx := by
  cases pc with
  | readNodeState => cases h
  | readNodeList states =>
    refine iff_of_true ?_ trivial
    simp only [ConnectionPc.locked] at h
    split at h
    · cases h
      exact ⟨_,rfl,Or.inl rfl⟩
    · cases h
      exact ⟨_,rfl,Or.inr ⟨_,rfl⟩⟩
    · cases h
  | readMasterNode states nodes =>
    obtain ⟨hkeyed,htwo⟩ := hpc states nodes rfl
    cases h
    exact balance_answers_iff hkeyed htwo ctx

namespace Consulted.Keys
variable {s t : Consulted} {a : Option ConsultAct}

theorem start : Consulted.start.Keys where
  keyed := keyed_empty
  tasks _ ht := absurd ht List.not_mem_nil
  snapshots _ _ hm := absurd hm List.not_mem_nil

theorem read (h : s.Keys) (k : ℕ) : (s.read k).Keys := by
  cases hk : s.requests[k]? with
  | none =>
    simp only [Consulted.read, hk]
    exact h
  | some pc =>
    simp only [Consulted.read, hk]
    cases hl : pc.locked s.registry.center.context with
    | inr answer =>
      exact ⟨h.keyed,h.tasks,fun states nodes hm => h.snapshots states nodes (List.mem_of_mem_eraseIdx hm)⟩
    | inl pc' =>
      refine ⟨h.keyed,h.tasks,?_⟩
      intro states nodes hm
      rcases List.mem_or_eq_of_mem_set hm with hold | rfl
      · exact h.snapshots states nodes hold
      · obtain ⟨rfl,htwo⟩ := locked_readMasterNode hl
        exact ⟨h.keyed,htwo⟩

theorem step (h : s.Keys) (hst : ConsultStep s a t) : t.Keys := by
  cases hst with
  | reorder hs =>
    refine ⟨?_,h.tasks,h.snapshots⟩
    intro k n hn
    exact h.keyed k n ((hs.nodeList k).trans hn)
  | @act a ha =>
    cases a with
    | registry a =>
      obtain ⟨hkeyed,htasks⟩ := keyed_next h.keyed h.tasks a
      exact ⟨hkeyed,htasks,h.snapshots⟩
    | ask =>
      refine ⟨h.keyed,h.tasks,?_⟩
      intro states nodes hm
      rcases List.mem_append.mp hm with hold | hnew
      · exact h.snapshots states nodes hold
      · cases List.mem_singleton.mp hnew
    | read k => exact h.read k

end Consulted.Keys

/-- The answers so far are good after a read exactly if they were good before it and the request
was ready. -/
theorem noPanic_read_iff {s : Consulted} (h : s.Keys) (k : ℕ) (hs : s.NoPanic) :
    (s.read k).NoPanic ↔ s.Ready (some (.read k)) := by
  cases hk : s.requests[k]? with
  | none =>
    simp only [Consulted.read, Consulted.Ready, hk]
    exact iff_of_true hs (fun pc hpc => by cases hpc)
  | some pc =>
    have hready : s.Ready (some (.read k)) ↔ pc.Ready s.registry.center.context := by
      simp [Consulted.Ready, hk]
    have hpc : ∀ states nodes, pc = .readMasterNode states nodes →
        Keyed nodes ∧ 2 ≤ nodes.entries.length := by
      rintro states nodes rfl
      exact h.snapshots states nodes (List.mem_of_getElem? hk)
    rw [hready]
    simp only [Consulted.read, hk]
    cases hl : pc.locked s.registry.center.context with
    | inl pc' =>
      refine iff_of_true hs ?_
      cases pc with
      | readMasterNode states nodes => cases hl
      | _ => trivial
    | inr answer =>
      rw [← locked_answers_iff hpc hl]
      constructor
      · exact fun hall => hall answer (List.mem_append_right _ List.mem_cons_self)
      · intro hanswer a ha
        rcases List.mem_append.mp ha with hold | hnew
        · exact hs a hold
        · rw [List.mem_singleton.mp hnew]
          exact hanswer

/-- No request for a connection panics throughout a run exactly if every request that has seen
several nodes finds a recorded master at its third read, and the first node it then looks at
was in the states of its first read. -/
theorem no_panic_iff {past : List (Consulted × Option ConsultAct)} {s : Consulted}
    (h : Run consultLts past s) :
    Run.Always Consulted.NoPanic past s ↔ ∀ p ∈ past, p.1.Ready p.2 := by
  have hstart : ∀ s, consultLts.init s → s.Keys ∧ s.NoPanic := by
    rintro s rfl
    exact ⟨Consulted.Keys.start,fun a ha => absurd ha List.not_mem_nil⟩
  apply Run.always_iff (I := fun s => s.Keys ∧ s.NoPanic) (P := Consulted.NoPanic) hstart
    (fun s hs => hs.2) _ _ h
  · rintro s a t ⟨hkeys,hgood⟩ hc hst
    refine ⟨hkeys.step hst,?_⟩
    cases hst with
    | reorder hs => exact hgood
    | @act a ha =>
      cases a with
      | read k => exact (noPanic_read_iff hkeys k hgood).mpr hc
      | registry a => exact hgood
      | ask => exact hgood
  · rintro s a t ⟨hkeys,hgood⟩ hst ht
    cases hst with
    | reorder hs => trivial
    | @act a ha =>
      cases a with
      | read k => exact (noPanic_read_iff hkeys k hgood).mp ht
      | registry a => trivial
      | ask => trivial

/-! ## The nodes of `conf.toml`, `slave1.toml` and `slave2.toml` -/

instance (s : Consulted) (a : ConsultAct) : Decidable (s.Admissible a) :=
  match a with
  | .registry a => inferInstanceAs (Decidable (s.registry.Admissible a))
  | .ask => isTrue trivial
  | .read _ => isTrue trivial

instance (ctx : AppContext) (pc : ConnectionPc) : Decidable (pc.Ready ctx) :=
  match pc with
  | .readMasterNode states nodes =>
    match h : ctx.masterNode with
    | none => isFalse (by simp [ConnectionPc.Ready, h])
    | some m => decidable_of_iff (∀ first ∈ (nodes.erase m.getKey).keys.head?, first ∈ states)
        (by simp [ConnectionPc.Ready, h])
  | .readNodeState => isTrue trivial
  | .readNodeList _ => isTrue trivial

instance (s : Consulted) (a : Option ConsultAct) : Decidable (s.Ready a) :=
  match a with
  | some (.read k) =>
    inferInstanceAs (Decidable (∀ pc ∈ s.requests[k]?, pc.Ready s.registry.center.context))
  | some (.registry _) => isTrue trivial
  | some .ask => isTrue trivial
  | none => isTrue trivial

theorem run_consulted (acts : List ConsultAct)
    (ha : Run.Allowed Consulted.next Consulted.Admissible Consulted.start acts) :
    Run consultLts (Run.record Consulted.next some Consulted.start acts)
      (acts.foldl Consulted.next Consulted.start) :=
  Run.of_start Consulted.next Consulted.Admissible some (fun _ _ h => ConsultStep.act h) rfl ha

def registers (nodeInfo : NodeInfo) (peerId : PeerIdentity) : List ConsultAct :=
  [.registry (.arrive nodeInfo nodeInfo.nodeType peerId),.registry (.run 0 0),.registry (.run 0 0),
    .registry (.run 0 0),.registry (.run 0 0)]

def asks : List ConsultAct := [.ask,.read 0,.read 0,.read 0]

/-- The master and two slaves have registered. -/
def threeNodes : List ConsultAct :=
  registers Server.GameServerConf.master.node "master" ++ registers heir "heir" ++
    registers Server.GameServerConf.slave2.node "slave2"

theorem no_panic_threeNodes : ((threeNodes ++ asks).foldl Consulted.next Consulted.start).NoPanic :=
  ((no_panic_iff (run_consulted (threeNodes ++ asks) (by decide +kernel))).mpr (by decide +kernel)).1

/-- The master falls silent, and a client asks before the heir has answered. -/
def failover : List ConsultAct :=
  threeNodes ++ [.registry (.pass (fun k =>
    if k = Server.GameServerConf.master.node.getKey then 6000 else 0))] ++ asks

/-- A slave registers between the first and the second read of a request. -/
def overtaken : List ConsultAct :=
  registers Server.GameServerConf.master.node "master" ++ [.ask,.read 0] ++ registers heir "heir" ++
    [.read 0,.read 0]

def Consulted.panics (s : Consulted) : List ConnectionPanic :=
  s.answers.filterMap (fun a => match a with
    | .error e => some e
    | .ok _ => none)

theorem not_noPanic_of_panics {s : Consulted} {e : ConnectionPanic} (h : e ∈ s.panics) : ¬ s.NoPanic := by
  intro hs
  obtain ⟨a,ha,he⟩ := List.mem_filterMap.mp h
  obtain ⟨r,rfl,-⟩ := hs a ha
  cases he

theorem connection_panics :
    (∃ past s, Run consultLts past s ∧ .masterMissing ∈ s.panics ∧ ¬ s.NoPanic) ∧
      ∃ past s, Run consultLts past s ∧ .firstStateMissing ∈ s.panics ∧ ¬ s.NoPanic := by
  have hfailover : .masterMissing ∈ (failover.foldl Consulted.next Consulted.start).panics := by
    decide +kernel
  have hovertaken : .firstStateMissing ∈ (overtaken.foldl Consulted.next Consulted.start).panics := by
    decide +kernel
  exact ⟨⟨_,_,run_consulted failover (by decide +kernel),hfailover,not_noPanic_of_panics hfailover⟩,
    ⟨_,_,run_consulted overtaken (by decide +kernel),hovertaken,not_noPanic_of_panics hovertaken⟩⟩

end GameServer.Registry
