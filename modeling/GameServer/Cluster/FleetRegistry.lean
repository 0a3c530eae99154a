import GameServer.Cluster.Fleet

/-! # The registry of a fleet

What the processes send is what the registry expects of them: only a node that was
commanded answers as a new master. So the registry of a fleet does nothing that the
registry on its own, with its interleaved registrations, does not do.
-/
namespace GameServer.Cluster
open Common Library Server Registry

/-- What a process sends to the registry. -/
inductive Uplink (sent : List (PeerIdentity × Message)) : Message → Prop
  | register (nodeInfo : NodeInfo) (nodeType : NodeType) : Uplink sent (Message.register nodeInfo nodeType)
  | report (clientId : String) (stateInfo : StateInfo) : Uplink sent (Message.stateReport clientId stateInfo)
  | answer (nodeInfo : NodeInfo) : nodeInfo.getKey ∈ commands sent →
      Uplink sent (Message.convertToMasterResp nodeInfo)

theorem Uplink.append {sent : List (PeerIdentity × Message)} {msg : Message} (h : Uplink sent msg)
    (new : List (PeerIdentity × Message)) : Uplink (sent ++ new) msg := by
  cases h with
  | register nodeInfo nodeType => exact Uplink.register nodeInfo nodeType
  | report clientId stateInfo => exact Uplink.report clientId stateInfo
  | answer nodeInfo hin =>
    apply Uplink.answer
    rw [commands_append]
    exact List.mem_append_left _ hin

theorem mem_commands {sent : List (PeerIdentity × Message)} {x : PeerIdentity × Message} (hx : x ∈ sent)
    (hop : x.2.operation = .ConvertToMaster) : x.2.clientId ∈ commands sent := by
  apply List.mem_filterMap.mpr
  exact ⟨x,hx,if_pos hop⟩

theorem interleaved_receive {r : Interleaved} {msg : Message} (h : Uplink r.center.sent msg) (now : ℤ)
    (peerId : PeerIdentity) : ∃ b, InterleavedStep r b (receive r now peerId msg) := by
  cases h with
  | register nodeInfo nodeType =>
    exact ⟨_,InterleavedStep.act (a := .arrive nodeInfo nodeType peerId) trivial⟩
  | report clientId stateInfo =>
    exact ⟨_,InterleavedStep.act (a := .report clientId stateInfo peerId now) trivial⟩
  | answer nodeInfo hin =>
    exact ⟨_,InterleavedStep.act (a := .convertToMasterResp nodeInfo peerId now) hin⟩

namespace FleetState
variable {ι : Type} (F : Fleet ι)

/-- The registry knows every process by its key, and what is under way to the registry is
what processes send. -/
structure Keyed (s : FleetState ι) : Prop where
  peers : ∀ k i, s.registry.center.context.nodeIdPeerIdMap.lookup k = some (F.peerId i) →
    k = (F.conf i).node.getKey
  commanded : ∀ x ∈ s.registry.center.sent, x.2.operation = .ConvertToMaster → ∀ i, x.1 = F.peerId i →
    x.2.clientId = (F.conf i).node.getKey
  self : ∀ i, (s.processes i).context.selfNodeInfo.getKey = (F.conf i).node.getKey
  uplink : ∀ x ∈ s.toRegistry, Uplink s.registry.center.sent x.2

variable {F}

theorem keyed_start [DecidableEq ι] : (FleetState.start F).Keyed F where
  peers k i h := by cases h
  commanded x hx := by cases hx
  self _ := rfl
  uplink x hx := by cases hx

namespace Keyed
variable {s : FleetState ι}

theorem withRegistry (h : s.Keyed F) {r : Interleaved} {new : List (PeerIdentity × Message)}
    (hsent : r.center.sent = s.registry.center.sent ++ new)
    (hpeers : ∀ k i, r.center.context.nodeIdPeerIdMap.lookup k = some (F.peerId i) →
      k = (F.conf i).node.getKey)
    (hcommanded : ∀ x ∈ new, x.2.operation = .ConvertToMaster → ∀ i, x.1 = F.peerId i →
      x.2.clientId = (F.conf i).node.getKey) : (s.withRegistry r).Keyed F := by
  refine ⟨hpeers,?_,h.self,?_⟩
  · intro x hx
    change x ∈ r.center.sent at hx
    rw [hsent] at hx
    exact (List.mem_append.mp hx).elim (h.commanded x) (hcommanded x)
  · intro x hx
    show Uplink r.center.sent x.2
    rw [hsent]
    exact (h.uplink x hx).append new

theorem taken (h : s.Keyed F) (k : ℕ) : Keyed F { s with toRegistry := s.toRegistry.eraseIdx k } :=
  ⟨h.peers,h.commanded,h.self,fun x hx => h.uplink x (List.mem_of_mem_eraseIdx hx)⟩

theorem posted (h : s.Keyed F) (i : ι) (msgs : List Message)
    (hmsgs : ∀ m ∈ msgs, Uplink s.registry.center.sent m) :
    Keyed F { s with toRegistry := s.toRegistry ++ msgs.map (fun m => (F.peerId i,m)) } := by
  refine ⟨h.peers,h.commanded,h.self,?_⟩
  intro x hx
  rcases List.mem_append.mp hx with hx | hx
  · exact h.uplink x hx
  · obtain ⟨m,hm,rfl⟩ := List.mem_map.mp hx
    exact hmsgs m hm

theorem changed [DecidableEq ι] (h : s.Keyed F) {i : ι} {p : Process}
    (toServers : List (PeerIdentity × Message))
    (hself : p.context.selfNodeInfo.getKey = (F.conf i).node.getKey) :
    Keyed F { s with processes := Function.update s.processes i p, toServers := toServers } := by
  refine ⟨h.peers,h.commanded,?_,h.uplink⟩
  intro j
  by_cases hji : j = i
  · subst hji
    dsimp only
    rw [Function.update_self]
    exact hself
  · dsimp only
    rw [Function.update_of_ne hji]
    exact h.self j

theorem handleResp_key (ctx : ServerContext) (msg : Message) :
    (handleRespFromRegistryCenterTask ctx msg).context.selfNodeInfo.getKey = ctx.selfNodeInfo.getKey := by
  unfold handleRespFromRegistryCenterTask
  split
  · split
    · rfl
    · rfl
  · rfl
  · rfl

theorem handleResp_uplink {ctx : ServerContext} {msg m : Message} {sent : List (PeerIdentity × Message)}
    (hcommand : msg.operation = .ConvertToMaster → ctx.selfNodeInfo.getKey ∈ commands sent)
    (hm : m ∈ (handleRespFromRegistryCenterTask ctx msg).toRegistryCenter) : Uplink sent m := by
  unfold handleRespFromRegistryCenterTask at hm
  split at hm
  · split at hm
    · cases hm
    · cases hm
  · rename_i hop
    dsimp only at hm
    split at hm
    · rw [List.mem_singleton.mp hm]
      exact Uplink.answer _ (hcommand hop)
    · cases hm
  · cases hm

theorem run (h : s.Keyed F) (hs : s.Sound F) (k : ℕ) (now : ℤ) :
    (s.withRegistry (s.registry.run k now)).Keyed F := by
  cases hk : s.registry.tasks[k]? with
  | none =>
    rw [run_none hk]
    exact h.withRegistry (List.append_nil _).symm h.peers (fun x hx => by cases hx)
  | some t =>
    obtain ⟨j,hof,-⟩ := hs.tasks t (List.mem_of_getElem? hk)
    obtain ⟨new,hsent,hnew⟩ := locked_sent now s.registry.center t
    have hcenter := run_center hk now
    have hsent' : (s.registry.run k now).center.sent = s.registry.center.sent ++ new := by
      rw [hcenter]
      exact hsent
    apply h.withRegistry hsent'
    · intro key i hl
      rw [hcenter] at hl
      cases lockedEffect now s.registry.center t with
      | checks hctx _ =>
        rw [hctx] at hl
        exact h.peers key i hl
      | records nodeInfo hp hc _ =>
        rw [hc] at hl
        exact h.peers key i hl
      | inserts nodeInfo hp hctx _ =>
        rw [hctx] at hl
        simp only [Center.insertNode, AList.lookup_insert_eq] at hl
        split at hl
        · rename_i hkey
          have hij : j = i := F.peerId_injective (hof.peerId.symm.trans (Option.some.inj hl))
          rw [hkey, hof.msg, hij]
          rfl
        · exact h.peers key i hl
    · intro x hx hop
      rcases hnew with rfl | ⟨reason,rfl⟩ | ⟨-,rfl⟩
      · cases hx
      · rw [List.mem_singleton.mp hx] at hop
        cases hop
      · rw [List.mem_singleton.mp hx] at hop
        cases hop

theorem pass (h : s.Keyed F) (clock : String → ℤ) :
    (s.withRegistry (s.registry.next (.pass clock))).Keyed F := by
  obtain ⟨new,hsent,hnew,-⟩ := pass_sent clock s.registry.center
  apply h.withRegistry hsent
  · intro k i hl
    simp only [Interleaved.next, heartbeatMonitor_context] at hl
    exact h.peers k i hl
  · intro x hx hop i hpeer
    obtain ⟨-,-,hcommand⟩ := hnew x hx
    obtain ⟨-,-,hl⟩ := hcommand hop
    rw [hpeer] at hl
    exact h.peers _ i hl

theorem receive (h : s.Keyed F) (hs : s.Sound F) {x : PeerIdentity × Message} (hx : x ∈ s.toRegistry)
    (now : ℤ) :
    (s.withRegistry (Cluster.receive s.registry now x.1 x.2)).Keyed F := by
  apply h.withRegistry (hs.moves_receive hx now).sent
  · intro k i hl
    unfold Cluster.receive at hl
    split at hl
    · exact h.peers k i hl
    · rename_i hop
      rw [(handleMsgTask_quiet now x.1 s.registry.center hop).2] at hl
      exact h.peers k i hl
  · intro y hy
    cases hy

variable [DecidableEq ι]

theorem deliver (h : s.Keyed F) (hs : s.Sound F) {i : ι} {k : ℕ} (ha : s.Admissible F (.deliver i k)) :
    (s.next F (.deliver i k)).Keyed F := by
  cases hk : s.toServers[k]? with
  | none =>
    simp only [next, hk]
    exact h
  | some x =>
    have hsent := hs.toServers x (List.mem_of_getElem? hk)
    have hpeer : x.1 = F.peerId i := ha x hk
    simp only [next, hk]
    by_cases hrun : (s.processes i).life = .running
    · rw [if_pos hrun]
      have hchanged := h.changed (p := (s.processes i).handle (F.conf i) x.2) (s.toServers.eraseIdx k)
        ((handleResp_key _ x.2).trans (h.self i))
      apply hchanged.posted i
      intro m hm
      apply handleResp_uplink _ hm
      intro hop
      rw [h.self i, ← h.commanded x hsent hop i hpeer]
      exact mem_commands hsent hop
    · rw [if_neg hrun]
      have hsame := h.changed (s.toServers.eraseIdx k) (h.self i)
      rw [Function.update_eq_self] at hsame
      exact hsame

theorem step (h : s.Keyed F) (hs : s.Sound F) {t : FleetState ι} {a : Option (FleetAct ι)}
    (hst : FleetStep F s a t) : t.Keyed F := by
  cases hst with
  | @reorder ctx hsame =>
    have hpeers : ∀ k i, ctx.nodeIdPeerIdMap.lookup k = some (F.peerId i) → k = (F.conf i).node.getKey :=
      fun k i hl => h.peers k i ((hsame.nodeIdPeerIdMap k).trans hl)
    exact ⟨hpeers,h.commanded,h.self,h.uplink⟩
  | @act a ha =>
    cases a with
    | start i =>
      let p : Process := { life := .running, context := ServerContext.run (F.conf i), madeMaster := false }
      have hstarted := h.changed (i := i) (p := p) s.toServers rfl
      by_cases hmode : (F.conf i).app.mode = .Cluster
      · have hposted := hstarted.posted i [Message.register (F.conf i).node (F.conf i).node.nodeType] (by
          intro m hm
          rw [List.mem_singleton.mp hm]
          exact Uplink.register _ _)
        simp only [next, hmode, if_true]
        exact hposted
      · simp only [next, hmode, if_false]
        exact hstarted
    | stop i => exact h.changed s.toServers (h.self i)
    | report i stateInfo =>
      apply h.posted i [Message.stateReport (F.conf i).node.getKey stateInfo]
      intro m hm
      rw [List.mem_singleton.mp hm]
      exact Uplink.report _ _
    | receive k now =>
      cases hk : s.toRegistry[k]? with
      | none =>
        simp only [next, hk]
        exact h
      | some x =>
        simp only [next, hk]
        exact (h.receive hs (List.mem_of_getElem? hk) now).taken k
    | run k now => exact h.run hs k now
    | pass clock => exact h.pass clock
    | deliver i k => exact h.deliver hs ha

/-- Every step of a fleet is a step of its registry, or one that the registry does not see. -/
theorem registry_step (h : s.Keyed F) {t : FleetState ι} {a : Option (FleetAct ι)} (hst : FleetStep F s a t) :
    t.registry = s.registry ∨ ∃ b, InterleavedStep s.registry b t.registry := by
  cases hst with
  | reorder hsame => exact Or.inr ⟨_,InterleavedStep.reorder hsame⟩
  | @act a ha =>
    cases a with
    | start i => exact Or.inl rfl
    | stop i => exact Or.inl rfl
    | report i stateInfo => exact Or.inl rfl
    | receive k now =>
      cases hk : s.toRegistry[k]? with
      | none =>
        simp only [next, hk]
        exact Or.inl trivial
      | some x =>
        simp only [next, hk]
        exact Or.inr (interleaved_receive (h.uplink x (List.mem_of_getElem? hk)) now x.1)
    | run k now => exact Or.inr ⟨_,InterleavedStep.act (a := .run k now) trivial⟩
    | pass clock => exact Or.inr ⟨_,InterleavedStep.act (a := .pass clock) ha⟩
    | deliver i k =>
      apply Or.inl
      cases hk : s.toServers[k]? with
      | none => simp only [next, hk]
      | some x =>
        simp only [next, hk]
        split
        · rfl
        · rfl

end Keyed

/-- The registry of a fleet reaches only what the registry reaches on its own. -/
theorem registry_reachable [DecidableEq ι] {s : FleetState ι} (h : (fleetLts F).Reachable s) :
    interleavedLts.Reachable s.registry := by
  apply Lts.Reachable.of_simulation (M := fleetLts F) (I := fun s => s.Sound F ∧ s.Keyed F)
    FleetState.registry _ _ h
  · rintro s rfl
    exact ⟨⟨sound_start,keyed_start⟩,rfl⟩
  · rintro s a t ⟨hs,hk⟩ hst
    exact ⟨⟨hs.step hst,hk.step hs hst⟩,hk.registry_step hst⟩

end FleetState

end GameServer.Cluster
