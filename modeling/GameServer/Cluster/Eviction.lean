import GameServer.Cluster.FleetRegistry
import GameServer.Cluster.Mastership

/-! # An evicted server never returns

A process registers once, when it starts. The registry keeps its identity for good, but a
node that a pass removed from the state table is not taken in again: no task is left that
could insert it, and a report of a node without an entry is dropped. It may well be running
and reporting all the while.
-/
namespace GameServer.Cluster
open Common Library Server Registry

theorem handleMsgTask_states (now : ℤ) {msg : Message} (peerId : PeerIdentity) (c : Center)
    (h : msg.operation ≠ .Register) (k : String) :
    k ∈ (Registry.handleMsgTask now msg peerId c).state.context.nodeState ↔ k ∈ c.context.nodeState := by
  unfold Registry.handleMsgTask
  split
  · contradiction
  · unfold handleReport
    split
    · rfl
    · split
      · rfl
      · exact AList.mem_adjust
  · unfold handleConvertToMasterResp
    split
    · rfl
    · split <;> rfl
  · rfl

theorem locked_states {now : ℤ} {c : Center} {t : RegisterTask} {k : String}
    (hk : k ∈ (t.locked now c).1.context.nodeState) : k ∈ c.context.nodeState ∨
      (∃ nodeInfo, t.pc = .insertNode nodeInfo) ∧ k = t.msg.clientId := by
  cases lockedEffect now c t with
  | checks hctx _ =>
    rw [hctx] at hk
    exact Or.inl hk
  | records nodeInfo _ hc _ =>
    rw [hc] at hk
    exact Or.inl hk
  | inserts nodeInfo hp hctx _ =>
    rw [hctx] at hk
    rcases (AList.mem_insert _).mp hk with rfl | hold
    · exact Or.inr ⟨⟨nodeInfo,hp⟩,rfl⟩
    · exact Or.inl hold

/-- A section keeps the identities, and files its own task when it inserts. -/
theorem locked_map (now : ℤ) (c : Center) (t : RegisterTask) (k : String) :
    (t.locked now c).1.context.nodeIdPeerIdMap.lookup k = c.context.nodeIdPeerIdMap.lookup k ∨
      (t.locked now c).1.context.nodeIdPeerIdMap.lookup k = some t.peerId ∧
        (t.locked now c).2 = none ∧ k = t.msg.clientId := by
  cases lockedEffect now c t with
  | checks hctx _ => exact Or.inl (by rw [hctx])
  | records nodeInfo _ hc _ =>
    rw [hc]
    exact Or.inl rfl
  | inserts nodeInfo hp hctx _ =>
    rw [hctx]
    simp only [Center.insertNode, AList.lookup_insert_eq]
    split
    · rename_i hk
      exact Or.inr ⟨rfl,by simp only [RegisterTask.locked, hp],hk⟩
    · exact Or.inl rfl

namespace FleetState
variable {ι : Type} (F : Fleet ι)

def attempts (s : FleetState ι) (i : ι) : ℕ :=
  s.toRegistry.countP (fun x => decide (x.1 = F.peerId i ∧ x.2.operation = .Register)) +
    s.registry.tasks.countP (fun t => decide (t.peerId = F.peerId i))

/-- A process registers once, and is done with it when the registry knows its identity. -/
structure Once (s : FleetState ι) : Prop where
  once : ∀ i, s.attempts F i ≤ 1
  unborn : ∀ i, (s.processes i).life = .unborn → s.attempts F i = 0
  listed : ∀ k i, s.registry.center.context.nodeIdPeerIdMap.lookup k = some (F.peerId i) →
    s.attempts F i = 0
  stored : ∀ k ∈ s.registry.center.context.nodeState, k ∈ s.registry.center.context.nodeIdPeerIdMap

def Evicted (s : FleetState ι) (k : String) : Prop :=
  k ∈ s.registry.center.context.nodeIdPeerIdMap ∧ k ∉ s.registry.center.context.nodeState

variable {F}

theorem once_start [DecidableEq ι] : (FleetState.start F).Once F where
  once i := Nat.zero_le 1
  unborn i _ := rfl
  listed k i h := by cases h
  stored k hk := absurd hk (AList.notMem_empty k)

theorem Once.of_attempts {s t : FleetState ι} (h : s.Once F)
    (hle : ∀ i, t.attempts F i ≤ s.attempts F i)
    (hlife : ∀ i, (t.processes i).life = .unborn → (s.processes i).life = .unborn)
    (hlisted : ∀ k i, t.registry.center.context.nodeIdPeerIdMap.lookup k = some (F.peerId i) →
      s.registry.center.context.nodeIdPeerIdMap.lookup k = some (F.peerId i) ∨ t.attempts F i = 0)
    (hstored : ∀ k ∈ t.registry.center.context.nodeState, k ∈ t.registry.center.context.nodeIdPeerIdMap) :
    t.Once F where
  once i := (hle i).trans (h.once i)
  unborn i hi := Nat.le_zero.mp ((hle i).trans (h.unborn i (hlife i hi)).le)
  listed k i hk := by
    rcases hlisted k i hk with hold | hzero
    · exact Nat.le_zero.mp ((hle i).trans (h.listed k i hold).le)
    · exact hzero
  stored := hstored

theorem attempts_posted (s : FleetState ι) (new : List (PeerIdentity × Message))
    (hnew : ∀ x ∈ new, x.2.operation ≠ .Register) (i : ι) :
    attempts F { s with toRegistry := s.toRegistry ++ new } i = s.attempts F i := by
  have hzero : new.countP (fun x => decide (x.1 = F.peerId i ∧ x.2.operation = .Register)) = 0 := by
    apply List.countP_eq_zero.mpr
    intro x hx hp
    exact hnew x hx (of_decide_eq_true hp).2
  unfold attempts
  rw [List.countP_append, hzero, Nat.add_zero]

theorem attempts_receive {s : FleetState ι} {k : ℕ} {x : PeerIdentity × Message}
    (hk : s.toRegistry[k]? = some x) (now : ℤ) (i : ι) :
    attempts F (FleetState.withRegistry { s with toRegistry := s.toRegistry.eraseIdx k }
      (receive s.registry now x.1 x.2)) i = s.attempts F i := by
  have hcount := Pool.countP_eraseIdx hk (fun x => decide (x.1 = F.peerId i ∧ x.2.operation = .Register))
  unfold attempts
  rw [hcount]
  dsimp only [FleetState.withRegistry]
  by_cases hop : x.2.operation = .Register
  · have htasks : (receive s.registry now x.1 x.2).tasks =
        s.registry.tasks ++ [{ msg := x.2, peerId := x.1, pc := .checkRegistered }] := by
      unfold receive
      rw [hop]
    rw [htasks, List.countP_append, List.countP_singleton]
    simp only [hop, and_true]
    omega
  · have htasks : (receive s.registry now x.1 x.2).tasks = s.registry.tasks := by
      unfold receive
      split
      · contradiction
      · rfl
    rw [htasks]
    simp [hop]

theorem attempts_run {s : FleetState ι} {k : ℕ} {t : RegisterTask} (hk : s.registry.tasks[k]? = some t)
    (now : ℤ) (i : ι) : attempts F (s.withRegistry (s.registry.run k now)) i +
      (if (t.locked now s.registry.center).2 = none ∧ t.peerId = F.peerId i then 1 else 0) =
        s.attempts F i := by
  unfold attempts
  dsimp only [FleetState.withRegistry]
  cases hpc : (t.locked now s.registry.center).2 with
  | none =>
    have htasks : (s.registry.run k now).tasks = s.registry.tasks.eraseIdx k := by
      simp only [Interleaved.run, hk, hpc]
    have hcount := Pool.countP_eraseIdx hk (fun t => decide (t.peerId = F.peerId i))
    rw [htasks, hcount]
    simp only [true_and, decide_eq_true_eq]
    omega
  | some pc =>
    have htasks : (s.registry.run k now).tasks = s.registry.tasks.set k { t with pc := pc } := by
      simp only [Interleaved.run, hk, hpc]
    have hcount := Pool.countP_set (b := { t with pc := pc }) hk
      (p := fun t => decide (t.peerId = F.peerId i)) rfl
    rw [htasks, hcount]
    simp

namespace Once
variable {s : FleetState ι}

theorem posted (h : s.Once F) (new : List (PeerIdentity × Message))
    (hnew : ∀ x ∈ new, x.2.operation ≠ .Register) :
    Once F { s with toRegistry := s.toRegistry ++ new } :=
  h.of_attempts (fun i => (attempts_posted s new hnew i).le) (fun _ hi => hi) (fun _ _ hk => Or.inl hk)
    h.stored

theorem receive (h : s.Once F) {k : ℕ} {x : PeerIdentity × Message} (hk : s.toRegistry[k]? = some x)
    (now : ℤ) : Once F (FleetState.withRegistry { s with toRegistry := s.toRegistry.eraseIdx k }
      (Cluster.receive s.registry now x.1 x.2)) := by
  apply h.of_attempts (fun i => (attempts_receive hk now i).le) (fun _ hi => hi)
  · intro key i hl
    left
    dsimp only [FleetState.withRegistry] at hl
    unfold Cluster.receive at hl
    split at hl
    · exact hl
    · rename_i hop
      rwa [(handleMsgTask_quiet now x.1 s.registry.center hop).2] at hl
  · intro key hin
    dsimp only [FleetState.withRegistry] at hin ⊢
    unfold Cluster.receive at hin ⊢
    split at hin
    · exact h.stored key hin
    · rename_i hop
      rw [(handleMsgTask_quiet now x.1 s.registry.center hop).2]
      exact h.stored key ((handleMsgTask_states now x.1 s.registry.center hop key).mp hin)

theorem run (h : s.Once F) (k : ℕ) (now : ℤ) : (s.withRegistry (s.registry.run k now)).Once F := by
  cases hk : s.registry.tasks[k]? with
  | none =>
    rw [run_none hk]
    exact h.of_attempts (fun i => le_rfl) (fun _ hi => hi) (fun _ _ hl => Or.inl hl) h.stored
  | some t =>
    have hcenter := run_center hk now
    refine h.of_attempts (fun i => ?_) (fun _ hi => hi) ?_ ?_
    · have hcount := attempts_run (F := F) hk now i
      omega
    · intro key i hl
      dsimp only [FleetState.withRegistry] at hl
      rw [hcenter] at hl
      rcases locked_map now s.registry.center t key with hold | ⟨hnew,hend,-⟩
      · rw [hold] at hl
        exact Or.inl hl
      · right
        rw [hnew] at hl
        have hcount := attempts_run (F := F) hk now i
        rw [if_pos ⟨hend,Option.some.inj hl⟩] at hcount
        have hone := h.once i
        omega
    · intro key hin
      dsimp only [FleetState.withRegistry] at hin ⊢
      rw [hcenter] at hin ⊢
      have hmap := locked_map now s.registry.center t key
      rw [← AList.lookup_isSome]
      rcases locked_states hin with hold | ⟨⟨nodeInfo,hp⟩,rfl⟩
      · have hsome := AList.lookup_isSome.mpr (h.stored key hold)
        rcases hmap with heq | ⟨heq,-⟩
        · rw [heq]
          exact hsome
        · rw [heq]
          rfl
      · simp [RegisterTask.locked, hp, Center.reply, Center.send, Center.insertNode]

theorem pass (h : s.Once F) (clock : String → ℤ) :
    (s.withRegistry (s.registry.next (.pass clock))).Once F := by
  refine h.of_attempts (fun i => ?_) (fun _ hi => hi) ?_ ?_
  · exact le_rfl
  · intro key i hl
    simp only [FleetState.withRegistry, Interleaved.next, heartbeatMonitor_context] at hl
    exact Or.inl hl
  · intro key hin
    simp only [FleetState.withRegistry, Interleaved.next, heartbeatMonitor_context] at hin ⊢
    exact h.stored key (AList.mem_eraseAll.mp hin).1

variable [DecidableEq ι]

/-- A process that starts was not there before, and makes its one attempt. -/
theorem start (h : s.Once F) (hs : s.Sound F) {i : ι} (hi : (s.processes i).life = .unborn) :
    (s.next F (.start i)).Once F := by
  have hzero := h.unborn i hi
  have hregister : (Message.register (F.conf i).node (F.conf i).node.nodeType).operation = .Register := rfl
  have hcount : ∀ j, attempts F (s.next F (.start i)) j = s.attempts F j ∨
      j = i ∧ attempts F (s.next F (.start i)) j = s.attempts F j + 1 := by
    intro j
    by_cases hmode : (F.conf i).app.mode = .Cluster
    · by_cases hji : j = i
      · right
        refine ⟨hji,?_⟩
        simp only [next, hmode, if_true, attempts, List.countP_append, List.countP_singleton, hji, hregister,
          and_self, decide_true]
        omega
      · left
        have hne : ¬ F.peerId i = F.peerId j := fun hp => hji (F.peerId_injective hp).symm
        simp only [next, hmode, if_true, attempts, List.countP_append, List.countP_singleton, hne, false_and,
          decide_false, Bool.false_eq_true, if_false, Nat.add_zero]
    · left
      simp only [next, hmode, if_false, attempts]
  refine ⟨?_,?_,?_,h.stored⟩
  · intro j
    rcases hcount j with hj | ⟨rfl,hj⟩
    · rw [hj]
      exact h.once j
    · rw [hj, hzero]
  · intro j hj
    rcases hcount j with hje | ⟨rfl,-⟩
    · rw [hje]
      apply h.unborn j
      by_cases hji : j = i
      · rw [hji]
        exact hi
      · simpa only [next, Function.update_of_ne hji] using hj
    · simp [next] at hj
  · intro key j hl
    rcases hcount j with hj | ⟨rfl,-⟩
    · rw [hj]
      exact h.listed key j hl
    · exact absurd hi (hs.peers key _ hl).life

theorem deliver (h : s.Once F) (i : ι) (k : ℕ) : (s.next F (.deliver i k)).Once F := by
  cases hk : s.toServers[k]? with
  | none =>
    simp only [next, hk]
    exact h
  | some x =>
    obtain ⟨q,msg⟩ := x
    simp only [next, hk]
    have htaken : Once F { s with toServers := s.toServers.eraseIdx k } := ⟨h.once,h.unborn,h.listed,h.stored⟩
    split
    · rename_i hrun
      have hposts : ∀ x ∈ (handleRespFromRegistryCenterTask (s.processes i).context
          msg).toRegistryCenter.map (fun m => (F.peerId i,m)), x.2.operation ≠ .Register := by
        intro x hx
        obtain ⟨m,hm,rfl⟩ := List.mem_map.mp hx
        exact Sound.handleResp_posts hm
      have hposted := htaken.posted _ hposts
      refine ⟨hposted.once,?_,hposted.listed,hposted.stored⟩
      intro j hj
      apply hposted.unborn j
      by_cases hji : j = i
      · subst hji
        simp only [FleetState.handle, Function.update_self] at hj
        exact absurd hj (Process.handle_life (Life.ne_unborn hrun) msg)
      · simpa only [FleetState.handle, Function.update_of_ne hji] using hj
    · exact htaken

theorem step (h : s.Once F) (hs : s.Sound F) {t : FleetState ι} {a : Option (FleetAct ι)}
    (hst : FleetStep F s a t) : t.Once F := by
  cases hst with
  | reorder hsame =>
    refine ⟨h.once,h.unborn,?_,?_⟩
    · intro k i hk
      exact h.listed k i ((hsame.nodeIdPeerIdMap k).trans hk)
    · intro k hk
      exact (hsame.nodeIdPeerIdMap.mem_iff k).mpr (h.stored k ((hsame.nodeState.mem_iff k).mp hk))
  | @act a ha =>
    cases a with
    | start i => exact h.start hs ha
    | stop i =>
      refine ⟨h.once,?_,h.listed,h.stored⟩
      intro j hj
      apply h.unborn j
      by_cases hji : j = i
      · subst hji
        simp [next] at hj
      · simpa only [next, Function.update_of_ne hji] using hj
    | report i stateInfo =>
      apply h.posted
      intro x hx
      rw [List.mem_singleton.mp hx]
      simp [Message.stateReport]
    | receive k now =>
      cases hk : s.toRegistry[k]? with
      | none =>
        simp only [next, hk]
        exact h
      | some x =>
        simp only [next, hk]
        exact h.receive hk now
    | run k now => exact h.run k now
    | pass clock => exact h.pass clock
    | deliver i k => exact h.deliver i k

end Once

/-! ## Without a second attempt there is no way back -/

/-- What holds of every fleet that started from nothing. -/
structure Settled (F : Fleet ι) (s : FleetState ι) : Prop where
  sound : s.Sound F
  keyed : s.Keyed F
  once : s.Once F

variable [DecidableEq ι]

theorem settled_start {s : FleetState ι} (h : (fleetLts F).init s) : Settled F s := by
  obtain rfl : s = FleetState.start F := h
  exact ⟨sound_start,keyed_start,once_start⟩

theorem settled_step {s t : FleetState ι} {a : Option (FleetAct ι)} (h : Settled F s)
    (hst : FleetStep F s a t) : Settled F t :=
  ⟨h.sound.step hst,h.keyed.step h.sound hst,h.once.step h.sound hst⟩

theorem known_step {s t : FleetState ι} {a : Option (FleetAct ι)} (hst : FleetStep F s a t) {k : String}
    (hk : k ∈ s.registry.center.context.nodeIdPeerIdMap) :
    k ∈ t.registry.center.context.nodeIdPeerIdMap := by
  cases hst with
  | reorder hsame => exact (hsame.nodeIdPeerIdMap.mem_iff k).mpr hk
  | @act a ha =>
    cases a with
    | receive j now =>
      cases hj : s.toRegistry[j]? with
      | none =>
        simp only [next, hj]
        exact hk
      | some x =>
        simp only [next, hj, FleetState.withRegistry]
        unfold Cluster.receive
        split
        · exact hk
        · rename_i hop
          rw [(handleMsgTask_quiet now x.1 s.registry.center hop).2]
          exact hk
    | run j now =>
      cases hj : s.registry.tasks[j]? with
      | none =>
        simp only [next, run_none hj]
        exact hk
      | some t =>
        simp only [next, FleetState.withRegistry, run_center hj]
        rw [← AList.lookup_isSome] at hk ⊢
        rcases locked_map now s.registry.center t k with heq | ⟨heq,-⟩
        · rw [heq]
          exact hk
        · rw [heq]
          rfl
    | pass clock =>
      simp only [next, FleetState.withRegistry, Interleaved.next, heartbeatMonitor_context]
      exact hk
    | deliver i j =>
      simp only [next]
      split
      · exact hk
      · split <;> exact hk
    | _ => exact hk

/-- Only the section that inserts a process brings its node into the state table. -/
theorem states_step {s t : FleetState ι} {a : Option (FleetAct ι)} (hst : FleetStep F s a t) {k : String}
    (hk : k ∈ t.registry.center.context.nodeState) : k ∈ s.registry.center.context.nodeState ∨
      ∃ task ∈ s.registry.tasks, k = task.msg.clientId := by
  cases hst with
  | reorder hsame => exact Or.inl ((hsame.nodeState.mem_iff k).mp hk)
  | @act a ha =>
    cases a with
    | receive j now =>
      left
      cases hj : s.toRegistry[j]? with
      | none =>
        simp only [next, hj] at hk
        exact hk
      | some x =>
        simp only [next, hj, FleetState.withRegistry] at hk
        unfold Cluster.receive at hk
        split at hk
        · exact hk
        · rename_i hop
          exact (handleMsgTask_states now x.1 s.registry.center hop k).mp hk
    | run j now =>
      cases hj : s.registry.tasks[j]? with
      | none =>
        simp only [next, run_none hj] at hk
        exact Or.inl hk
      | some t =>
        simp only [next, FleetState.withRegistry, run_center hj] at hk
        exact (locked_states hk).imp_right (fun hins => ⟨t,List.mem_of_getElem? hj,hins.2⟩)
    | pass clock =>
      simp only [next, FleetState.withRegistry, Interleaved.next, heartbeatMonitor_context] at hk
      exact Or.inl (AList.mem_eraseAll.mp hk).1
    | deliver i j =>
      left
      simp only [next] at hk
      split at hk
      · exact hk
      · split at hk <;> exact hk
    | _ => exact Or.inl hk

theorem evicted_step (hinj : Function.Injective (fun i => (F.conf i).node.getKey)) {s t : FleetState ι}
    {a : Option (FleetAct ι)} (hs : Settled F s) {k : String} (he : s.Evicted k) (hst : FleetStep F s a t) :
    t.Evicted k := by
  refine ⟨known_step hst he.1,?_⟩
  intro hk
  rcases states_step hst hk with hold | ⟨task,htask,hkey⟩
  · exact he.2 hold
  · obtain ⟨i,hof,-⟩ := hs.sound.tasks task htask
    obtain ⟨p,hp⟩ := AList.exists_lookup he.1
    obtain ⟨j,rfl,-⟩ := hs.sound.peers k p hp
    have hj : k = (F.conf j).node.getKey := hs.keyed.peers k j hp
    have hki : k = (F.conf i).node.getKey := by
      rw [hkey, hof.msg]
      rfl
    have hij : i = j := hinj (hki.symm.trans hj)
    -- the task is an attempt of the process whose identity is already on file
    have hpos : 0 < s.registry.tasks.countP (fun t => decide (t.peerId = F.peerId j)) := by
      apply List.countP_pos_iff.mpr
      exact ⟨task,htask,decide_eq_true (by rw [hof.peerId, hij])⟩
    have hzero := hs.once.listed k j hp
    unfold attempts at hzero
    omega

end FleetState

section
variable {ι : Type} [DecidableEq ι] {F : Fleet ι}

/-- In a fleet whose nodes have different addresses, where no process is started again and each
registers once, a node that was in the state table and is not any more stays out of it for the
rest of the run. -/
theorem evicted_for_good (hinj : Function.Injective (fun i => (F.conf i).node.getKey))
    {later earlier : List (FleetState ι × Option (FleetAct ι))} {q : FleetState ι × Option (FleetAct ι)}
    {s : FleetState ι} (h : Run (fleetLts F) (later ++ q :: earlier) s) {k : String}
    (hwas : ∃ p ∈ earlier, k ∈ p.1.registry.center.context.nodeState)
    (hgone : k ∉ q.1.registry.center.context.nodeState) :
    k ∉ s.registry.center.context.nodeState ∧
      ∀ p ∈ later, k ∉ p.1.registry.center.context.nodeState := by
  obtain ⟨p,hp,hin⟩ := hwas
  obtain ⟨between,first,rfl⟩ := List.append_of_mem hp
  have hstart : ∀ s, (fleetLts F).init s → FleetState.Settled F s := fun s hs => FleetState.settled_start hs
  have hstep : ∀ s a t, FleetState.Settled F s → (fleetLts F).step s a t → FleetState.Settled F t :=
    fun s a t hs hst => FleetState.settled_step hs hst
  have hfirst : FleetState.Settled F p.1 := h.before.before.invariant hstart hstep
  have hknown : k ∈ q.1.registry.center.context.nodeIdPeerIdMap :=
    (h.before.stays hstart hstep (J := fun s => k ∈ s.registry.center.context.nodeIdPeerIdMap)
      (fun s a t _ hk hst => FleetState.known_step hst hk) (hfirst.once.stored k hin)).1
  obtain ⟨hnow,hlater⟩ := h.stays hstart hstep (J := fun s => s.Evicted k)
    (fun s a t hs he hst => FleetState.evicted_step hinj hs he hst) ⟨hknown,hgone⟩
  exact ⟨hnow.2,fun p hp => (hlater p hp).2⟩

end

theorem pairFleet_addresses :
    Function.Injective (fun i => ((pairFleet .slave).conf i).node.getKey) := by
  intro i j h
  cases i <;> cases j
  · rfl
  · exact absurd h (by decide +kernel)
  · exact absurd h (by decide +kernel)
  · rfl

theorem evicted_for_good_master :
    let F := pairFleet .slave
    let s := (failover []).foldl (FleetState.next F) (FleetState.start F)
    GameServerConf.master.node.getKey ∉ ((s.next F (.report false StateInfo.default)).next F
      (.receive 0 7000)).registry.center.context.nodeState := by
  intro F s
  have hrun := run_pairFleet .slave (failover []) (by decide +kernel)
  have hreport : FleetStep F s (some (.report false StateInfo.default))
      (s.next F (.report false StateInfo.default)) := FleetStep.act (by decide +kernel)
  have hreceive : FleetStep F (s.next F (.report false StateInfo.default)) (some (.receive 0 7000))
      ((s.next F (.report false StateInfo.default)).next F (.receive 0 7000)) := FleetStep.act trivial
  have hlater : Run (fleetLts F) ([(_,_)] ++ (_,_) :: _) _ := (hrun.next hreport).next hreceive
  exact (evicted_for_good pairFleet_addresses hlater (k := GameServerConf.master.node.getKey)
    (by decide +kernel) (by decide +kernel)).1

end GameServer.Cluster
