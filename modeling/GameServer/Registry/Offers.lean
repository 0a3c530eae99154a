import GameServer.Registry.Connections
import GameServer.Registry.Liveness

/-! # What a client that asks for a connection is offered

A request reads the states, the nodes and the master in three locked sections, and the
registry may change in between. What it offers is right for the moments it has read at: the
node was in time and least loaded at the first one, listed at the second, and it is not the
master recorded at the third.
-/
namespace GameServer.Registry
open Common Library Detector

def registryPast (past : List (Consulted × Option ConsultAct)) : List (Interleaved × Option InterleavedAct) :=
  Run.viewed Consulted.registry (fun _ a => match a with
    | some (.registry a) => some (some a)
    | none => some none
    | _ => none) past

/-- The node was registered, every pass since then found it in time, and this is what it was
last heard to report. -/
def Alive (past : List (Consulted × Option ConsultAct)) (k : String) (state : NodeState) : Prop :=
  lastSign k (heardIn (registryPast past)) = some state ∧
    InTime NodeState.lastHeartbeatTime 5000 k (heardIn (registryPast past))

section
variable {past : List (Consulted × Option ConsultAct)} {s t : Consulted}

theorem registry_of_run (h : Run consultLts past s) : Run interleavedLts (registryPast past) s.registry := by
  unfold registryPast
  apply h.project Consulted.registry
  · rintro s rfl
    rfl
  · intro s a t b hst hb
    cases hst with
    | reorder hs =>
      obtain rfl := Option.some.inj hb
      exact InterleavedStep.reorder hs
    | @act a ha =>
      cases a with
      | registry a =>
        obtain rfl := Option.some.inj hb
        exact InterleavedStep.act ha
      | ask => cases hb
      | read k => cases hb
  · intro s a t hst hb
    cases hst with
    | reorder hs => cases hb
    | @act a ha =>
      cases a with
      | registry a => cases hb
      | ask => rfl
      | read k =>
        simp only [Consulted.next, Consulted.read]
        split
        · rfl
        · split <;> rfl

theorem alive_iff (h : Run consultLts past s) (k : String) (state : NodeState) :
    s.registry.center.context.nodeState.lookup k = some state ↔ Alive past k state := by
  have hk : s.registry.center.context.nodeState.lookup k =
      watched NodeState.lastHeartbeatTime 5000 (heardIn (registryPast past)) k :=
    congrFun (states_eq_watched (registry_of_run h)) k
  rw [hk]
  exact watched_iff

/-! ## The moments a request has read at -/

/-- A request under way, and what had happened when it read last, when it read before, and so on:
each time the steps up to its own. -/
structure Consultation where
  pc : ConnectionPc
  reads : List (List (Consulted × Option ConsultAct))

structure Ledger where
  requests : List Consultation
  answers : List (Answer × List (List (Consulted × Option ConsultAct)))

def Ledger.read (g : Ledger) (ctx : AppContext) (moment : List (Consulted × Option ConsultAct)) (k : ℕ) : Ledger :=
  match g.requests[k]? with
  | none => g
  | some c =>
    match c.pc.locked ctx with
    | .inl pc => { g with requests := g.requests.set k { pc := pc, reads := moment :: c.reads } }
    | .inr answer =>
      { requests := g.requests.eraseIdx k, answers := g.answers ++ [(answer,moment :: c.reads)] }

/-- The requests under way after a run and those that ended, each with the moments it has read at. -/
def ledger : List (Consulted × Option ConsultAct) → Ledger
  | [] => { requests := [], answers := [] }
  | p :: past =>
    let g := ledger past
    match p.2 with
    | some .ask => { g with requests := g.requests ++ [{ pc := .readNodeState, reads := [] }] }
    | some (.read k) => g.read p.1.registry.center.context (p :: past) k
    | _ => g

/-- The ledger has the requests and the answers of the web interface. -/
def Ledger.Shows (g : Ledger) (s : Consulted) : Prop :=
  g.requests.map Consultation.pc = s.requests ∧ g.answers.map Prod.fst = s.answers

theorem Ledger.Shows.read {g : Ledger} (h : g.Shows s) (moment : List (Consulted × Option ConsultAct)) (k : ℕ) :
    (g.read s.registry.center.context moment k).Shows (s.read k) := by
  obtain ⟨hrequests,hanswers⟩ := h
  have hk : s.requests[k]? = g.requests[k]?.map Consultation.pc := by
    rw [← hrequests, List.getElem?_map]
  unfold Ledger.read Consulted.read
  rw [hk]
  cases g.requests[k]? with
  | none => exact ⟨hrequests,hanswers⟩
  | some c =>
    simp only [Option.map_some]
    cases c.pc.locked s.registry.center.context with
    | inl pc =>
      refine ⟨?_,hanswers⟩
      dsimp only
      rw [List.map_set, hrequests]
    | inr answer =>
      refine ⟨?_,?_⟩
      · dsimp only
        rw [← List.eraseIdx_map, hrequests]
      · simp only [List.map_append, List.map_cons, List.map_nil, hanswers]

theorem ledger_shows (h : Run consultLts past s) : (ledger past).Shows s := by
  induction h with
  | start hs =>
    obtain rfl : _ = Consulted.start := hs
    exact ⟨rfl,rfl⟩
  | @next past s t a _ hst ih =>
    cases hst with
    | reorder _ => exact ih
    | @act a _ =>
      cases a with
      | registry a => exact ih
      | read k => exact ih.read _ k
      | ask =>
        refine ⟨?_,ih.2⟩
        simp only [ledger, List.map_append, List.map_cons, List.map_nil, ih.1]
        rfl

/-- What the request holds is what the registry had when it read. -/
def Consultation.Holds (past : List (Consulted × Option ConsultAct)) (c : Consultation) : Prop :=
  match c.pc with
  | .readNodeState => c.reads = []
  | .readNodeList states => ∃ p₀ l₀, c.reads = [p₀ :: l₀] ∧ p₀ :: l₀ <:+ past ∧
      p₀.1.registry.center.context.nodeState = states
  | .readMasterNode states nodes => ∃ p₁ l₁ p₀ l₀, c.reads = [p₁ :: l₁,p₀ :: l₀] ∧ p₁ :: l₁ <:+ past ∧
      p₀ :: l₀ <:+ l₁ ∧ p₀.1.registry.center.context.nodeState = states ∧
      p₁.1.registry.center.context.nodeList = nodes

/-- The node was the only one listed at the second read, or it was chosen among the states of the
first one out of the nodes of the second one, against the master of the third. -/
def Chosen (past : List (Consulted × Option ConsultAct)) (n : NodeInfo)
    (reads : List (List (Consulted × Option ConsultAct))) : Prop :=
  (∃ p₁ l₁ p₀ l₀, reads = [p₁ :: l₁,p₀ :: l₀] ∧ p₁ :: l₁ <:+ past ∧ p₀ :: l₀ <:+ l₁ ∧
    p₁.1.registry.center.context.nodeList.values = [n]) ∨
  ∃ p₂ l₂ p₁ l₁ p₀ l₀ m, reads = [p₂ :: l₂,p₁ :: l₁,p₀ :: l₀] ∧ p₂ :: l₂ <:+ past ∧ p₁ :: l₁ <:+ l₂ ∧
    p₀ :: l₀ <:+ l₁ ∧ p₂.1.registry.center.context.masterNode = some m ∧
    Keyed p₁.1.registry.center.context.nodeList ∧ 2 ≤ p₁.1.registry.center.context.nodeList.entries.length ∧
    balance p₀.1.registry.center.context.nodeState p₁.1.registry.center.context.nodeList (some m) =
      .ok (Resp.success n)

theorem Consultation.Holds.later {c : Consultation} (h : c.Holds past) (p : Consulted × Option ConsultAct) :
    c.Holds (p :: past) := by
  unfold Consultation.Holds at h ⊢
  cases hpc : c.pc with
  | readNodeState =>
    simp only [hpc] at h
    exact h
  | readNodeList states =>
    simp only [hpc] at h
    obtain ⟨p₀,l₀,hr,hp,hs⟩ := h
    exact ⟨p₀,l₀,hr,hp.trans (List.suffix_cons p past),hs⟩
  | readMasterNode states nodes =>
    simp only [hpc] at h
    obtain ⟨p₁,l₁,p₀,l₀,hr,hp,hrest⟩ := h
    exact ⟨p₁,l₁,p₀,l₀,hr,hp.trans (List.suffix_cons p past),hrest⟩

theorem Chosen.later {n : NodeInfo} {reads : List (List (Consulted × Option ConsultAct))}
    (h : Chosen past n reads) (p : Consulted × Option ConsultAct) : Chosen (p :: past) n reads := by
  rcases h with ⟨p₁,l₁,p₀,l₀,hr,hp,hrest⟩ | ⟨p₂,l₂,p₁,l₁,p₀,l₀,m,hr,hp,hrest⟩
  · exact Or.inl ⟨p₁,l₁,p₀,l₀,hr,hp.trans (List.suffix_cons p past),hrest⟩
  · exact Or.inr ⟨p₂,l₂,p₁,l₁,p₀,l₀,m,hr,hp.trans (List.suffix_cons p past),hrest⟩

theorem holds_locked {c : Consultation} {pc : ConnectionPc} (h : c.Holds past) (a : Option ConsultAct)
    (hl : c.pc.locked s.registry.center.context = .inl pc) :
    Consultation.Holds ((s,a) :: past) { pc := pc, reads := ((s,a) :: past) :: c.reads } := by
  unfold Consultation.Holds at h
  cases hpc : c.pc with
  | readNodeState =>
    simp only [hpc] at h
    rw [hpc] at hl
    cases hl
    exact ⟨(s,a),past,by rw [h],List.suffix_rfl,rfl⟩
  | readNodeList states =>
    simp only [hpc] at h
    obtain ⟨p₀,l₀,hr,hp,hs⟩ := h
    simp only [hpc, ConnectionPc.locked] at hl
    split at hl
    · cases hl
    · cases hl
    · cases hl
      exact ⟨(s,a),past,p₀,l₀,by rw [hr],List.suffix_rfl,hp,hs,rfl⟩
  | readMasterNode states nodes =>
    rw [hpc] at hl
    cases hl

theorem not_success {n : NodeInfo} (h : returnNoAvailableServerNode = Resp.success n) : False := by
  apply not_succeeds_returnNoAvailableServerNode
  rw [h]
  exact Resp.succeeds_success n

theorem balance_no_master {states : HashMap String NodeState} {nodes : HashMap String NodeInfo} {n : NodeInfo}
    (htwo : 2 ≤ nodes.entries.length) {masterNode : Option NodeInfo}
    (h : balance states nodes masterNode = .ok (Resp.success n)) : ∃ m, masterNode = some m := by
  cases masterNode with
  | none =>
    rw [balance_none htwo] at h
    cases h
  | some m => exact ⟨m,rfl⟩

theorem chosen_locked {c : Consultation} (h : c.Holds past) (hkeyed : ∀ states nodes,
      c.pc = .readMasterNode states nodes → Keyed nodes ∧ 2 ≤ nodes.entries.length)
    (a : Option ConsultAct) {n : NodeInfo}
    (hl : c.pc.locked s.registry.center.context = .inr (.ok (Resp.success n))) :
    Chosen ((s,a) :: past) n (((s,a) :: past) :: c.reads) := by
  unfold Consultation.Holds at h
  cases hpc : c.pc with
  | readNodeState =>
    rw [hpc] at hl
    cases hl
  | readNodeList states =>
    left
    simp only [hpc] at h
    obtain ⟨p₀,l₀,hr,hp,-⟩ := h
    refine ⟨(s,a),past,p₀,l₀,by rw [hr],List.suffix_rfl,hp,?_⟩
    simp only [hpc, ConnectionPc.locked] at hl
    split at hl
    · exact absurd (Except.ok.inj (Sum.inr.inj hl)) not_success
    · rename_i nodeInfo hv
      have hdata : nodeInfo = n := congrArg Resp.data (Except.ok.inj (Sum.inr.inj hl))
      rw [hv, hdata]
    · cases hl
  | readMasterNode states nodes =>
    right
    obtain ⟨hk,htwo⟩ := hkeyed states nodes hpc
    simp only [hpc] at h
    obtain ⟨p₁,l₁,p₀,l₀,hr,hp₁,hp₀,rfl,rfl⟩ := h
    rw [hpc] at hl
    have hbalance := Sum.inr.inj hl
    obtain ⟨m,hm⟩ := balance_no_master htwo hbalance
    rw [hm] at hbalance
    exact ⟨(s,a),past,p₁,l₁,p₀,l₀,m,by rw [hr],List.suffix_rfl,hp₁,hp₀,hm,hk,htwo,hbalance⟩

structure Ledger.Justified (past : List (Consulted × Option ConsultAct)) (g : Ledger) : Prop where
  requests : ∀ c ∈ g.requests, c.Holds past
  answers : ∀ n reads, (.ok (Resp.success n),reads) ∈ g.answers → Chosen past n reads

theorem Ledger.Justified.later {g : Ledger} (h : g.Justified past) (p : Consulted × Option ConsultAct) :
    g.Justified (p :: past) where
  requests c hc := (h.requests c hc).later p
  answers n reads hn := (h.answers n reads hn).later p

theorem Ledger.Justified.read {g : Ledger} (h : g.Justified past) (hg : g.Shows s) (hkeys : s.Keys)
    (a : Option ConsultAct) (k : ℕ) :
    (g.read s.registry.center.context ((s,a) :: past) k).Justified ((s,a) :: past) := by
  unfold Ledger.read
  cases hk : g.requests[k]? with
  | none => exact h.later _
  | some c =>
    have hc : c ∈ g.requests := List.mem_of_getElem? hk
    have hheld := h.requests c hc
    dsimp only
    cases hl : c.pc.locked s.registry.center.context with
    | inl pc =>
      refine ⟨?_,(h.later (s,a)).answers⟩
      intro x hx
      rcases List.mem_or_eq_of_mem_set hx with hold | rfl
      · exact (h.requests x hold).later _
      · exact holds_locked hheld a hl
    | inr answer =>
      refine ⟨fun x hx => (h.requests x (List.mem_of_mem_eraseIdx hx)).later _,?_⟩
      intro n reads hn
      rcases List.mem_append.mp hn with hold | hnew
      · exact (h.answers n reads hold).later _
      · obtain ⟨rfl,rfl⟩ := Prod.mk.inj (List.mem_singleton.mp hnew)
        refine chosen_locked hheld ?_ a hl
        intro states nodes hpc
        apply hkeys.snapshots states nodes
        rw [← hg.1]
        exact List.mem_map.mpr ⟨c,hc,hpc⟩

theorem justified_of_run (h : Run consultLts past s) : s.Keys ∧ (ledger past).Justified past := by
  induction h with
  | start hs =>
    obtain rfl : _ = Consulted.start := hs
    exact ⟨Consulted.Keys.start,(fun c hc => by cases hc),fun n reads hn => by cases hn⟩
  | @next past s t a hr hst ih =>
    obtain ⟨hkeys,hj⟩ := ih
    refine ⟨hkeys.step hst,?_⟩
    cases hst with
    | reorder _ => exact hj.later _
    | @act a _ =>
      cases a with
      | registry a => exact hj.later _
      | read k => exact hj.read (ledger_shows hr) hkeys _ k
      | ask =>
        refine ⟨?_,(hj.later _).answers⟩
        intro c hc
        rcases List.mem_append.mp hc with hold | hnew
        · exact (hj.requests c hold).later _
        · rw [List.mem_singleton.mp hnew]
          exact rfl

/-! ## The node it chose -/

/-- What the third section offers is least loaded among the states it has read, less the master. -/
theorem balance_success {states : HashMap String NodeState} {nodes : HashMap String NodeInfo} {m n : NodeInfo}
    (hkeyed : Keyed nodes) (htwo : 2 ≤ nodes.entries.length)
    (h : balance states nodes (some m) = .ok (Resp.success n)) :
    nodes.lookup n.getKey = some n ∧ n.getKey ≠ m.getKey ∧ ∃ state, states.lookup n.getKey = some state ∧
      state.stateInfo.loadFactor < 1 ∧ ∀ k other, k ≠ m.getKey → states.lookup k = some other →
        loadOrder state.stateInfo ≤ loadOrder other.stateInfo := by
  rw [balance_some htwo] at h
  obtain ⟨k',hk'⟩ := exists_mem_erase htwo m.getKey
  obtain ⟨first,rest,hl,-⟩ := exists_first hk'
  cases hfirst : (states.erase m.getKey).lookup first with
  | none =>
    simp only [getMinLoadNode, hl, hfirst] at h
    cases h
  | some state₀ =>
    simp only [getMinLoadNode, hl, hfirst] at h
    have hleast := minLoad_le ⟨first,state₀⟩ (states.erase m.getKey).entries
    have hstored := minLoad_stored hfirst
    generalize minLoad ⟨first,state₀⟩ (states.erase m.getKey).entries = least at h hleast hstored
    cases hnode : (nodes.erase m.getKey).lookup least.1 with
    | none =>
      simp only [hnode] at h
      exact absurd (Except.ok.inj h) not_success
    | some node =>
      obtain ⟨hne,hlisted⟩ := AList.lookup_of_lookup_erase hnode
      obtain hkey : node.getKey = least.1 := hkeyed least.1 node hlisted
      rw [hnode] at h
      dsimp only at h
      rw [hkey, hstored] at h
      dsimp only at h
      split at h
      · rename_i hfree
        obtain rfl : node = n := congrArg Resp.data (Except.ok.inj h)
        refine ⟨by rw [hkey]; exact hlisted,by rw [hkey]; exact hne,least.2,?_,hfree,?_⟩
        · rw [hkey]
          exact (AList.lookup_of_lookup_erase hstored).2
        · intro k other hk hother
          apply hleast ⟨k,other⟩ (List.mem_cons_of_mem _ (AList.mem_entries_iff.mpr _))
          rw [AList.lookup_erase_eq, if_neg hk, hother]
      · exact absurd (Except.ok.inj h) not_success

/-- However registrations, reports, passes and other requests come between the reads of a request,
a node it is answered with was the only one listed when that request read the nodes, or else it was in
time when it read the states, not full, and by the last reports no more loaded than any other node in
time but the master; it was still listed when it read the nodes, and is not the master it read. -/
theorem offered_least_loaded (h : Run consultLts past s) :
    (ledger past).answers.map Prod.fst = s.answers ∧
    ∀ n reads, (.ok (Resp.success n),reads) ∈ (ledger past).answers →
      (∃ p₁ l₁ p₀ l₀, reads = [p₁ :: l₁,p₀ :: l₀] ∧ p₁ :: l₁ <:+ past ∧ p₀ :: l₀ <:+ l₁ ∧
        p₁.1.registry.center.context.nodeList.values = [n]) ∨
      ∃ p₂ l₂ p₁ l₁ p₀ l₀ m state, reads = [p₂ :: l₂,p₁ :: l₁,p₀ :: l₀] ∧ p₂ :: l₂ <:+ past ∧
        p₁ :: l₁ <:+ l₂ ∧ p₀ :: l₀ <:+ l₁ ∧ Alive l₀ n.getKey state ∧ state.stateInfo.loadFactor < 1 ∧
        (∀ k other, k ≠ m.getKey → Alive l₀ k other →
          loadOrder state.stateInfo ≤ loadOrder other.stateInfo) ∧
        p₁.1.registry.center.context.nodeList.lookup n.getKey = some n ∧
        p₂.1.registry.center.context.masterNode = some m ∧ n.getKey ≠ m.getKey := by
  refine ⟨(ledger_shows h).2,?_⟩
  intro n reads hn
  rcases (justified_of_run h).2.answers n reads hn with halone |
    ⟨p₂,l₂,p₁,l₁,p₀,l₀,m,hreads,hp₂,hp₁,hp₀,hm,hkeyed,htwo,hbalance⟩
  · exact Or.inl halone
  · right
    have hread : Run consultLts l₀ p₀.1 := by
      have hbefore : p₀ :: l₀ <:+ past :=
        hp₀.trans ((List.suffix_cons p₁ l₁).trans (hp₁.trans ((List.suffix_cons p₂ l₂).trans hp₂)))
      obtain ⟨later,hpast⟩ := hbefore
      rw [← hpast] at h
      exact h.before
    obtain ⟨hlisted,hne,state,hstate,hfree,hleast⟩ := balance_success hkeyed htwo hbalance
    refine ⟨p₂,l₂,p₁,l₁,p₀,l₀,m,state,hreads,hp₂,hp₁,hp₀,(alive_iff hread _ _).mp hstate,hfree,?_,hlisted,hm,hne⟩
    intro k other hk hother
    exact hleast k other hk ((alive_iff hread k other).mpr hother)

deriving instance DecidableEq for Resp

/-- The slaves report, a request reads the states, and the less loaded one reports that it is full
before the request goes on. -/
def asksBetween : List ConsultAct :=
  [.registry (.report heir.getKey (reportedLoad (1 / 2)) "heir" 1000),
    .registry (.report Server.GameServerConf.slave2.node.getKey (reportedLoad (1 / 4)) "slave2" 1000),.ask,.read 0,
    .registry (.report Server.GameServerConf.slave2.node.getKey (reportedLoad 1) "slave2" 2000),.read 0,.read 0]

theorem offered_least_loaded_threeNodes :
    let past := Run.record Consulted.next some Consulted.start (threeNodes ++ asksBetween)
    let n := Server.GameServerConf.slave2.node
    ∃ reads, (.ok (Resp.success n),reads) ∈ (ledger past).answers ∧
      ∃ p₂ l₂ p₁ l₁ p₀ l₀ m state, reads = [p₂ :: l₂,p₁ :: l₁,p₀ :: l₀] ∧
        Alive l₀ n.getKey state ∧ state.stateInfo.loadFactor < 1 ∧
        p₂.1.registry.center.context.masterNode = some m ∧ n.getKey ≠ m.getKey := by
  intro past n
  have hanswer : .ok (Resp.success Server.GameServerConf.slave2.node) ∈
      ((threeNodes ++ asksBetween).foldl Consulted.next Consulted.start).answers := by
    decide +kernel
  have hthree : ∀ x ∈ (ledger (Run.record Consulted.next some Consulted.start (threeNodes ++ asksBetween))).answers,
      x.2.length = 3 := by
    decide +kernel
  obtain ⟨hshown,hoffered⟩ := offered_least_loaded (run_consulted (threeNodes ++ asksBetween) (by decide +kernel))
  rw [← hshown] at hanswer
  obtain ⟨⟨answer,reads⟩,hmem,rfl⟩ := List.mem_map.mp hanswer
  refine ⟨reads,hmem,?_⟩
  rcases hoffered n reads hmem with ⟨p₁,l₁,p₀,l₀,hreads,-⟩ |
    ⟨p₂,l₂,p₁,l₁,p₀,l₀,m,state,hreads,-,-,-,halive,hfree,-,-,hm,hne⟩
  · have hlen := hthree _ hmem
    rw [hreads] at hlen
    cases hlen
  · exact ⟨p₂,l₂,p₁,l₁,p₀,l₀,m,state,hreads,halive,hfree,hm,hne⟩

end

end GameServer.Registry
