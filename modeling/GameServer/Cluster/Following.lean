import GameServer.Cluster.Eviction
import GameServer.Registry.Balancing

/-! # Whom a slave follows

A server that the registry has recorded as master is one by its own account: it registered as
such, or it had converted before it answered the command. A slave asks for the recorded master
once, before it registers, and stays with the answer. News of another master are only logged.
-/
namespace GameServer.Registry
open Common

/-- The answer to `GET /master` -/
def getMaster (ctx : AppContext) : Resp NodeInfo :=
  match ctx.masterNode with
  | some addr => Resp.success addr
  | none => { Resp.fail NodeInfo.default with code := 500, message := "no available master node" }

end GameServer.Registry

namespace GameServer.Cluster
open Common Library Server Registry

/-- What a starting slave makes of the answer. -/
def httpGetMasterNode (resp : Resp NodeInfo) : Option NodeInfo :=
  if resp.code = 500 then none else some resp.data

def asMaster (n : NodeInfo) : NodeInfo := { n with nodeType := .Master }

theorem asMaster_of_master {n : NodeInfo} (h : n.nodeType = .Master) : asMaster n = n := by
  unfold asMaster
  rw [← h]

/-- A message that is not a registration leaves the recorded master alone, unless it is the
answer of a server that has converted. -/
theorem handleMsgTask_masterNode (now : ℤ) {msg : Message} (peerId : PeerIdentity) (c : Center)
    (h : msg.operation ≠ .Register) {n : NodeInfo}
    (hn : (Registry.handleMsgTask now msg peerId c).state.context.masterNode = some n) :
    c.context.masterNode = some n ∨
      msg.operation = .ConvertToMasterResp ∧ msg.content.bind Content.asNodeInfo = some n := by
  unfold Registry.handleMsgTask at hn
  split at hn
  · contradiction
  · left
    unfold handleReport at hn
    split at hn
    · exact hn
    · split at hn <;> exact hn
  · rename_i hop
    unfold handleConvertToMasterResp at hn
    split at hn
    · exact Or.inl hn
    · rename_i content hc
      split at hn
      · exact Or.inl hn
      · rename_i nodeInfo hinfo
        right
        refine ⟨hop,?_⟩
        rw [hc, Option.bind_some, hinfo]
        exact hn
  · exact Or.inl hn

namespace FleetState
variable {ι : Type} (F : Fleet ι)

/-- The node is the one some server has on record, and this server acts as master. -/
def Acts (s : FleetState ι) (n : NodeInfo) : Prop :=
  ∃ i, n = asMaster (F.conf i).node ∧ (s.processes i).life ≠ .unborn ∧
    (s.processes i).context.nodeType = .Master

/-- Whoever is recorded as master, or about to be, acts as master. -/
structure Acting (s : FleetState ι) : Prop where
  recorded : ∀ n, s.registry.center.context.masterNode = some n → s.Acts F n
  answers : ∀ x ∈ s.toRegistry, x.2.operation = .ConvertToMasterResp → ∀ n,
    x.2.content.bind Content.asNodeInfo = some n → s.Acts F n
  self : ∀ i, asMaster (s.processes i).context.selfNodeInfo = asMaster (F.conf i).node

variable {F}

theorem acting_start [DecidableEq ι] : (FleetState.start F).Acting F where
  recorded n hn := by cases hn
  answers x hx := by cases hx
  self i := rfl

theorem acts_of_task {s : FleetState ι} (hs : s.Sound F) {t : RegisterTask} (ht : t ∈ s.registry.tasks)
    {n : NodeInfo} (hp : t.pc = .writeMaster n) : s.Acts F n := by
  obtain ⟨i,hof,hborn⟩ := hs.tasks t ht
  have hpc := hof.pc
  rw [hp] at hpc
  obtain ⟨rfl,hmaster⟩ := hpc
  exact ⟨i,(asMaster_of_master hmaster).symm,hborn,hs.configured i hborn hmaster⟩

namespace Acting
variable {s : FleetState ι}

theorem withRegistry (h : s.Acting F) {r : Interleaved}
    (hr : ∀ n, r.center.context.masterNode = some n → s.Acts F n) : (s.withRegistry r).Acting F :=
  ⟨hr,h.answers,h.self⟩

theorem taken (h : s.Acting F) (k : ℕ) : Acting F { s with toRegistry := s.toRegistry.eraseIdx k } :=
  ⟨h.recorded,fun x hx => h.answers x (List.mem_of_mem_eraseIdx hx),h.self⟩

theorem receive (h : s.Acting F) {k : ℕ} {x : PeerIdentity × Message} (hk : s.toRegistry[k]? = some x)
    (now : ℤ) : Acting F (FleetState.withRegistry { s with toRegistry := s.toRegistry.eraseIdx k }
      (Cluster.receive s.registry now x.1 x.2)) := by
  apply (h.taken k).withRegistry
  intro n hn
  unfold Cluster.receive at hn
  split at hn
  · exact h.recorded n hn
  · rename_i hop
    rcases handleMsgTask_masterNode now x.1 s.registry.center hop hn with hold | ⟨hresp,hcontent⟩
    · exact h.recorded n hold
    · exact h.answers x (List.mem_of_getElem? hk) hresp n hcontent

theorem run (h : s.Acting F) (hs : s.Sound F) (k : ℕ) (now : ℤ) :
    (s.withRegistry (s.registry.run k now)).Acting F := by
  apply h.withRegistry
  intro n hn
  cases hk : s.registry.tasks[k]? with
  | none =>
    rw [run_none hk] at hn
    exact h.recorded n hn
  | some t =>
    rw [run_center hk] at hn
    cases lockedEffect now s.registry.center t with
    | checks hctx _ =>
      rw [hctx] at hn
      exact h.recorded n hn
    | records nodeInfo hp hc _ =>
      rw [hc] at hn
      obtain rfl := Option.some.inj hn
      exact acts_of_task hs (List.mem_of_getElem? hk) hp
    | inserts nodeInfo hp hctx _ =>
      rw [hctx] at hn
      exact h.recorded n hn

theorem pass (h : s.Acting F) (clock : String → ℤ) :
    (s.withRegistry (s.registry.next (.pass clock))).Acting F := by
  apply h.withRegistry
  intro n hn
  simp only [Interleaved.next, heartbeatMonitor_context] at hn
  split at hn
  · cases hn
  · exact h.recorded n hn

variable [DecidableEq ι]

/-- One process changes and does not give up the role of a master; what is new under way names
a server that acts as master. -/
theorem changed (h : s.Acting F) {i : ι} {p : Process} {toServers : List (PeerIdentity × Message)}
    {new : List (PeerIdentity × Message)} (hlife : (s.processes i).life ≠ .unborn → p.life ≠ .unborn)
    (hmaster : (s.processes i).life ≠ .unborn → (s.processes i).context.nodeType = .Master →
      p.context.nodeType = .Master)
    (hself : asMaster p.context.selfNodeInfo = asMaster (F.conf i).node)
    (hnew : ∀ x ∈ new, x.2.operation = .ConvertToMasterResp → ∀ n,
      x.2.content.bind Content.asNodeInfo = some n →
        n = asMaster (F.conf i).node ∧ p.life ≠ .unborn ∧ p.context.nodeType = .Master) :
    Acting F { s with
      processes := Function.update s.processes i p
      toRegistry := s.toRegistry ++ new
      toServers := toServers } := by
  have hkeep : ∀ n, s.Acts F n → Acts F { s with
      processes := Function.update s.processes i p
      toRegistry := s.toRegistry ++ new
      toServers := toServers } n := by
    rintro n ⟨j,hn,hborn,hj⟩
    by_cases hji : j = i
    · subst hji
      refine ⟨j,hn,?_,?_⟩
      · simpa only [Function.update_self] using hlife hborn
      · simpa only [Function.update_self] using hmaster hborn hj
    · refine ⟨j,hn,?_,?_⟩
      · simpa only [Function.update_of_ne hji] using hborn
      · simpa only [Function.update_of_ne hji] using hj
  refine ⟨fun n hn => hkeep n (h.recorded n hn),?_,?_⟩
  · intro x hx hop n hn
    rcases List.mem_append.mp hx with hx | hx
    · exact hkeep n (h.answers x hx hop n hn)
    · obtain ⟨he,hborn,hp⟩ := hnew x hx hop n hn
      refine ⟨i,he,?_,?_⟩
      · simpa only [Function.update_self] using hborn
      · simpa only [Function.update_self] using hp
  · intro j
    by_cases hji : j = i
    · subst hji
      simpa only [Function.update_self] using hself
    · simpa only [Function.update_of_ne hji] using h.self j

/-- A process that converts takes the role before it answers. -/
theorem deliver (h : s.Acting F) (i : ι) (k : ℕ) : (s.next F (.deliver i k)).Acting F := by
  cases hk : s.toServers[k]? with
  | none =>
    simp only [next, hk]
    exact h
  | some x =>
    obtain ⟨q,msg⟩ := x
    simp only [next, hk]
    split
    · rename_i hrun
      apply h.changed (fun hborn => Process.handle_life hborn msg) (fun _ hm => Sound.handleResp_master hm msg)
      · have hself := h.self i
        simp only [Process.handle]
        unfold handleRespFromRegistryCenterTask
        split
        · split <;> exact hself
        · exact hself
        · exact hself
      · intro y hy hop n hn
        obtain ⟨m,hm,rfl⟩ := List.mem_map.mp hy
        simp only [Process.handle]
        unfold handleRespFromRegistryCenterTask at hm ⊢
        split at hm
        · split at hm <;> cases hm
        · dsimp only at hm
          split at hm
          · obtain rfl := List.mem_singleton.mp hm
            obtain rfl := Option.some.inj hn
            refine ⟨h.self i,?_,rfl⟩
            simp only [Bool.false_eq_true, if_false, hrun]
            decide
          · cases hm
        · cases hm
    · exact ⟨h.recorded,h.answers,h.self⟩

theorem step (h : s.Acting F) (hs : s.Sound F) {t : FleetState ι} {a : Option (FleetAct ι)}
    (hst : FleetStep F s a t) : t.Acting F := by
  cases hst with
  | reorder hsame =>
    refine ⟨?_,h.answers,h.self⟩
    intro n hn
    exact h.recorded n (hsame.masterNode.symm.trans hn)
  | @act a ha =>
    cases a with
    | start i =>
      have hborn : (s.processes i).life = .unborn := ha
      have hnew : ∀ new : List (PeerIdentity × Message), (∀ x ∈ new, x.2.operation ≠ .ConvertToMasterResp) →
          Acting F { s with
            processes := Function.update s.processes i
              { life := .running, context := ServerContext.run (F.conf i), madeMaster := false }
            toRegistry := s.toRegistry ++ new
            toServers := s.toServers } := by
        intro new hquiet
        apply h.changed (fun hno => absurd hborn hno) (fun hno => absurd hborn hno) rfl
        intro x hx hop
        exact absurd hop (hquiet x hx)
      simp only [next]
      split
      · apply hnew
        intro x hx
        rw [List.mem_singleton.mp hx]
        simp [Message.register]
      · have hnone := hnew [] (fun x hx => by cases hx)
        rwa [List.append_nil] at hnone
    | stop i =>
      have hstopped : Acting F { s with
          processes := Function.update s.processes i { s.processes i with life := .stopped }
          toRegistry := s.toRegistry ++ []
          toServers := s.toServers } := by
        refine h.changed ?_ ?_ (h.self i) ?_
        · intro _
          simp
        · exact fun _ hm => hm
        · intro x hx
          cases hx
      rwa [List.append_nil] at hstopped
    | report i stateInfo =>
      refine ⟨h.recorded,?_,h.self⟩
      intro x hx hop
      rcases List.mem_append.mp hx with hx | hx
      · exact h.answers x hx hop
      · rw [List.mem_singleton.mp hx] at hop
        cases hop
    | receive k now =>
      cases hk : s.toRegistry[k]? with
      | none =>
        simp only [next, hk]
        exact h
      | some x =>
        simp only [next, hk]
        exact h.receive hk now
    | run k now => exact h.run hs k now
    | pass clock => exact h.pass clock
    | deliver i k => exact h.deliver i k

end Acting

end FleetState

section
variable {ι : Type} [DecidableEq ι]

/-- The master the registry records has been started and is of type Master, running or stopped. -/
theorem recorded_acts {F : Fleet ι} {past : List (FleetState ι × Option (FleetAct ι))} {s : FleetState ι}
    (h : Run (fleetLts F) past s) {n : NodeInfo} (hn : s.registry.center.context.masterNode = some n) :
    ∃ i, n = asMaster (F.conf i).node ∧ (s.processes i).life ≠ .unborn ∧
      (s.processes i).context.nodeType = .Master := by
  have hinv : s.Sound F ∧ s.Acting F := by
    apply h.invariant (I := fun s => s.Sound F ∧ s.Acting F)
    · rintro s rfl
      exact ⟨FleetState.sound_start,FleetState.acting_start⟩
    · rintro s a t ⟨hs,hacting⟩ hst
      exact ⟨hs.step hst,hacting.step hs hst⟩
  exact hinv.2.recorded n hn

end

def succession : List (FleetAct Bool) := failover [] ++ [FleetAct.receive 0 7000]

theorem recorded_acts_succession : ∃ i n, (succession.foldl (FleetState.next (pairFleet .slave))
      (FleetState.start (pairFleet .slave))).registry.center.context.masterNode = some n ∧
    n = asMaster ((pairFleet .slave).conf i).node := by
  have hrun := run_pairFleet .slave succession (by decide +kernel)
  have hsome : (succession.foldl (FleetState.next (pairFleet .slave))
      (FleetState.start (pairFleet .slave))).registry.center.context.masterNode.isSome = true := by decide +kernel
  obtain ⟨n,hn⟩ := Option.isSome_iff_exists.mp hsome
  obtain ⟨i,hi,-⟩ := recorded_acts hrun hn
  exact ⟨i,n,hn,hi⟩

/-! ## The master a slave asks for -/

/-- The fleet, and the `master_node` of every slave that has asked for it. -/
structure Followed (ι : Type) where
  fleet : FleetState ι
  masterNode : ι → Option NodeInfo

inductive FollowAct (ι : Type)
  | fleet (a : FleetAct ι)
  | ask (i : ι)

namespace Followed
variable {ι : Type} [DecidableEq ι] (F : Fleet ι)

def start : Followed ι where
  fleet := FleetState.start F
  masterNode _ := none

/-- Without an answer `master_node` is what `ServerContext::new_by_config` made it. -/
def next (s : Followed ι) : FollowAct ι → Followed ι
  | .fleet a => { s with fleet := s.fleet.next F a }
  | .ask i =>
    let answer := httpGetMasterNode (getMaster s.fleet.registry.center.context)
    { s with masterNode := Function.update s.masterNode i (some (answer.getD (F.conf i).node)) }

/-- `do_in_cluster_mode` lets a slave ask before it registers. -/
def Admissible (s : Followed ι) : FollowAct ι → Prop
  | .fleet (.start i) => s.fleet.Admissible F (.start i) ∧ ((F.conf i).app.mode = .Cluster →
      (F.conf i).node.nodeType = .Slave → (s.masterNode i).isSome)
  | .fleet a => s.fleet.Admissible F a
  | .ask i => (s.fleet.processes i).life = .unborn ∧ (F.conf i).node.nodeType = .Slave ∧ s.masterNode i = none

instance decidableAdmissible (s : Followed ι) : (a : FollowAct ι) → Decidable (s.Admissible F a)
  | .fleet (.start i) => inferInstanceAs (Decidable (s.fleet.Admissible F (.start i) ∧
      ((F.conf i).app.mode = .Cluster → (F.conf i).node.nodeType = .Slave → (s.masterNode i).isSome)))
  | .fleet (.stop i) => inferInstanceAs (Decidable (s.fleet.Admissible F (.stop i)))
  | .fleet (.report i info) => inferInstanceAs (Decidable (s.fleet.Admissible F (.report i info)))
  | .fleet (.receive k now) => inferInstanceAs (Decidable (s.fleet.Admissible F (.receive k now)))
  | .fleet (.run k now) => inferInstanceAs (Decidable (s.fleet.Admissible F (.run k now)))
  | .fleet (.pass clock) => inferInstanceAs (Decidable (s.fleet.Admissible F (.pass clock)))
  | .fleet (.deliver i k) => inferInstanceAs (Decidable (s.fleet.Admissible F (.deliver i k)))
  | .ask i => inferInstanceAs (Decidable ((s.fleet.processes i).life = .unborn ∧
      (F.conf i).node.nodeType = .Slave ∧ s.masterNode i = none))

end Followed

section
variable {ι : Type} [DecidableEq ι] {F : Fleet ι}

end

end GameServer.Cluster
