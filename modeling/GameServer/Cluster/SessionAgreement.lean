import GameServer.Cluster.Sessions
import GameServer.Library.Pool

/-! # Users and sessions agree once all is quiet

Each user is followed from its session over the wire and the task pool into the
master's world. It gets there and leaves again in step with its session, unless
its `DelUser` task overtakes its `AddUser` task: then it stays for good.
-/
namespace GameServer.Cluster
open Common CommonServer Library Server

/-! ## Following one user through the cluster -/

section
variable {ι : Type} {s t : State ι} {id : UserId} {i : ι} {clientId : String}

/-- Nobody has heard of the user. -/
structure State.Unheard (s : State ι) (id : UserId) : Prop where
  member : id ∉ s.master.userIds
  sessions : ∀ i clientId, (s.slaves i).clientMap.lookup clientId ≠ some id
  wires : ∀ i, trail id (s.wires i) = []
  tasks : trail id s.tasks = []

/-- Only the client `clientId` of slave `i` ever had a session of the user. -/
structure State.Follows (s : State ι) (id : UserId) (i : ι) (clientId : String) : Prop where
  only : ∀ j c, (s.slaves j).clientMap.lookup c = some id → j = i ∧ c = clientId
  apart : ∀ j, j ≠ i → trail id (s.wires j) = []
  stage : Stage (id ∈ s.master.userIds) ((s.slaves i).clientMap.lookup clientId = some id)
    (trail id (s.wires i)) (trail id s.tasks)

/-- The step from `s` to `t` was not about the user. -/
structure SameFor (s t : State ι) (id : UserId) : Prop where
  member : id ∈ t.master.userIds ↔ id ∈ s.master.userIds
  sessions : ∀ i c, (t.slaves i).clientMap.lookup c = some id ↔ (s.slaves i).clientMap.lookup c = some id
  wires : ∀ i, trail id (t.wires i) = trail id (s.wires i)
  tasks : trail id t.tasks = trail id s.tasks

theorem State.Unheard.congr (h : s.Unheard id) (hst : SameFor s t id) : t.Unheard id where
  member := hst.member.not.mpr h.member
  sessions i c := (hst.sessions i c).not.mpr (h.sessions i c)
  wires i := (hst.wires i).trans (h.wires i)
  tasks := hst.tasks.trans h.tasks

theorem State.Follows.congr (h : s.Follows id i clientId) (hst : SameFor s t id) :
    t.Follows id i clientId where
  only j c hj := h.only j c ((hst.sessions j c).mp hj)
  apart j hj := (hst.wires j).trans (h.apart j hj)
  stage := by
    rw [hst.wires i, hst.tasks]
    exact h.stage.congr hst.member (hst.sessions i clientId)

theorem State.Unheard.follows (h : s.Unheard id) (i : ι) (clientId : String) :
    s.Follows id i clientId where
  only j c hj := absurd hj (h.sessions j c)
  apart j _ := h.wires j
  stage := by
    rw [h.wires i, h.tasks]
    exact Stage.left h.member (h.sessions i clientId)

/-- A notice on a wire is one about a user followed on that very slave. -/
theorem State.Follows.eq_of_wire (h : s.Follows id i clientId) {j : ι} (hj : trail id (s.wires j) ≠ []) :
    j = i := by
  by_contra hne
  exact hj (h.apart j hne)

/-- Every message is a notice, and every used id is followed from slave to master. -/
structure State.Inv (s : State ι) : Prop where
  master : MasterInv s.master
  sent : ∀ i, ∀ m ∈ s.wires i, ∃ id n, Carries m id n
  pending : ∀ m ∈ s.tasks, ∃ id n, Carries m id n
  unheard : ∀ id, id ∉ s.used → s.Unheard id
  follows : ∀ id ∈ s.used, ∃ i clientId, s.Follows id i clientId

theorem State.Inv.used_of_not_unheard (h : s.Inv) (hn : ¬ s.Unheard id) : id ∈ s.used := by
  by_contra hu
  exact hn (h.unheard id hu)

theorem State.inv_start (S : Setup ι) : (State.start S).Inv where
  master := MasterInv.init S.masterConf
  sent _ _ hm := by cases hm
  pending _ hm := by cases hm
  unheard id _ := by
    refine ⟨?_,?_,fun _ => rfl,rfl⟩
    · simp [State.start, userIds_init]
    · intro i c
      simp [State.start, World.init]
  follows _ hid := absurd hid (Finset.notMem_empty _)

/-- A step about one user, followed afterwards, keeps the others as they were. -/
theorem State.Inv.step_about (h : s.Inv) (hmaster : MasterInv t.master)
    (hsent : ∀ i, ∀ m ∈ t.wires i, ∃ id n, Carries m id n)
    (hpending : ∀ m ∈ t.tasks, ∃ id n, Carries m id n) (hused : t.used = insert id s.used)
    (hid : ∃ i clientId, t.Follows id i clientId) (hsame : ∀ id', id' ≠ id → SameFor s t id') : t.Inv where
  master := hmaster
  sent := hsent
  pending := hpending
  unheard id' hid' := by
    rw [hused, Finset.mem_insert, not_or] at hid'
    exact (h.unheard id' hid'.2).congr (hsame id' hid'.1)
  follows id' hid' := by
    by_cases he : id' = id
    · exact he ▸ hid
    · rw [hused, Finset.mem_insert] at hid'
      obtain ⟨j,c,hf⟩ := h.follows id' (hid'.resolve_left he)
      exact ⟨j,c,hf.congr (hsame id' he)⟩

theorem State.Inv.step_quiet (h : s.Inv) (hmaster : MasterInv t.master) (hwires : t.wires = s.wires)
    (htasks : t.tasks = s.tasks) (hused : t.used = s.used) (hsame : ∀ id, SameFor s t id) : t.Inv where
  master := hmaster
  sent := by rw [hwires]; exact h.sent
  pending := by rw [htasks]; exact h.pending
  unheard id hid := by
    rw [hused] at hid
    exact (h.unheard id hid).congr (hsame id)
  follows id hid := by
    rw [hused] at hid
    obtain ⟨j,c,hf⟩ := h.follows id hid
    exact ⟨j,c,hf.congr (hsame id)⟩

end

/-! ## What each step preserves -/

section
variable {ι : Type} [DecidableEq ι] {s : State ι} {i : ι} {h : Handled} {used : Finset UserId}

@[simp] theorem State.handled_master : (s.handled i h used).master = s.master := rfl
@[simp] theorem State.handled_tasks : (s.handled i h used).tasks = s.tasks := rfl
@[simp] theorem State.handled_used : (s.handled i h used).used = used := rfl

theorem State.handled_slaves (j : ι) :
    (s.handled i h used).slaves j = if j = i then h.world else s.slaves j :=
  Function.update_apply _ _ _ _

theorem State.handled_wires (j : ι) :
    (s.handled i h used).wires j = if j = i then s.wires i ++ h.toMaster else s.wires j :=
  Function.update_apply _ _ _ _

theorem State.handled_lookup {i j : ι} {c : String} :
    ((s.handled i h used).slaves j).clientMap.lookup c =
      if j = i then h.world.clientMap.lookup c else (s.slaves j).clientMap.lookup c := by
  rw [handled_slaves]
  split <;> rfl

/-- What a slave did says nothing about `id`. -/
theorem State.sameFor_handled {id : UserId}
    (hlookup : ∀ c, h.world.clientMap.lookup c = some id ↔ (s.slaves i).clientMap.lookup c = some id)
    (htrail : trail id h.toMaster = []) : SameFor s (s.handled i h used) id where
  member := Iff.rfl
  sessions j c := by
    rw [handled_lookup]
    split
    · rename_i hj
      rw [hj]
      exact hlookup c
    · rfl
  wires j := by
    rw [handled_wires]
    split
    · rename_i hj
      rw [hj, trail_append, htrail, List.append_nil]
    · rfl
  tasks := rfl

theorem State.sent_handled (hsent : ∀ i, ∀ m ∈ s.wires i, ∃ id n, Carries m id n)
    (hnew : ∀ m ∈ h.toMaster, ∃ id n, Carries m id n) :
    ∀ j, ∀ m ∈ (s.handled i h used).wires j, ∃ id n, Carries m id n := by
  intro j m hm
  rw [handled_wires] at hm
  split at hm
  · rcases List.mem_append.mp hm with hm | hm
    · exact hsent i m hm
    · exact hnew m hm
  · exact hsent j m hm

theorem State.Inv.handled_same (hs : s.Inv) (hmap : h.world.clientMap = (s.slaves i).clientMap)
    (hsend : h.toMaster = []) : (s.handled i h s.used).Inv := by
  refine hs.step_quiet hs.master ?_ rfl rfl ?_
  · funext j
    rw [handled_wires, hsend, List.append_nil]
    split
    · rename_i hj
      rw [hj]
    · rfl
  · intro _
    apply sameFor_handled
    · intro c
      rw [hmap]
    · rw [hsend]
      rfl

/-- The user is followed on the slave whose handler dealt with its client: the sessions of the
other clients and the other wires are as before. -/
theorem State.follows_handled {id : UserId} {clientId : String}
    (honly : ∀ j c, (s.slaves j).clientMap.lookup c = some id → j = i ∧ c = clientId)
    (hothers : ∀ c, c ≠ clientId → h.world.clientMap.lookup c = (s.slaves i).clientMap.lookup c)
    (hapart : ∀ j, j ≠ i → trail id (s.wires j) = [])
    (hstage : Stage (id ∈ (s.handled i h used).master.userIds)
      (((s.handled i h used).slaves i).clientMap.lookup clientId = some id)
      (trail id ((s.handled i h used).wires i)) (trail id (s.handled i h used).tasks)) :
    (s.handled i h used).Follows id i clientId := by
  constructor
  · intro j c hj
    rw [handled_lookup] at hj
    split at hj
    · rename_i hji
      refine ⟨hji,?_⟩
      by_contra hc
      rw [hothers c hc] at hj
      exact hc (honly i c hj).2
    · exact honly j c hj
  · intro j hj
    rw [handled_wires, if_neg hj]
    exact hapart j hj
  · exact hstage

/-- A session begins for an id nobody has heard of. -/
theorem State.Inv.handled_begins (hs : s.Inv) {id : UserId} (hfresh : id ∉ s.used)
    (he : Begins (s.slaves i) h id) : (s.handled i h (insert id s.used)).Inv := by
  have hu := hs.unheard id hfresh
  cases he with
  | same hmap hsend =>
    have hi := hs.handled_same hmap hsend
    have hnone : ∀ id', SameFor (s.handled i h s.used) (s.handled i h (insert id s.used)) id' :=
      fun _ => ⟨Iff.rfl,fun _ _ => Iff.rfl,fun _ => rfl,rfl⟩
    have hf := ((hi.unheard id hfresh).congr (hnone id)).follows i ""
    exact hi.step_about hi.master hi.sent hi.pending rfl ⟨i,"",hf⟩ (fun id' _ => hnone id')
  | @begins clientId m hfree hmap hsend hm =>
    refine hs.step_about hs.master (sent_handled hs.sent ?_) hs.pending rfl ⟨i,clientId,?_⟩ ?_
    · rw [hsend]
      exact hm.of_mem_singleton
    · apply follows_handled (fun j c hj => absurd hj (hu.sessions j c))
      · intro c hc
        rw [hmap, AList.lookup_insert_ne hc]
      · exact fun j _ => hu.wires j
      · rw [handled_wires, if_pos rfl, handled_lookup, if_pos rfl, trail_append, hu.wires i, hsend,
          hm.trail_cons, hmap, AList.lookup_insert, handled_tasks, hu.tasks]
        exact Stage.joinQueued hu.member rfl
    · intro id' hne
      apply sameFor_handled
      · intro c
        rw [hmap]
        exact AList.lookup_insert_of_value_ne hfree hne
      · rw [hsend, hm.trail_cons_ne hne]
        rfl

/-- A session ends and its leave is sent behind its join. -/
theorem State.Inv.handled_ends (hs : s.Inv) (he : Ends (s.slaves i) h) : (s.handled i h s.used).Inv := by
  cases he with
  | same hmap hsend => exact hs.handled_same hmap hsend
  | @ends clientId id m hold hmap hsend hm =>
    have hid := hs.used_of_not_unheard (fun hu => hu.sessions i clientId hold)
    obtain ⟨j,c,hf⟩ := hs.follows id hid
    obtain ⟨rfl,rfl⟩ := hf.only i clientId hold
    have hgone : h.world.clientMap.lookup clientId ≠ some id := by
      rw [hmap, AList.lookup_erase]
      simp
    refine hs.step_about hs.master (sent_handled hs.sent ?_) hs.pending
      (Finset.insert_eq_of_mem hid).symm ⟨i,clientId,?_⟩ ?_
    · rw [hsend]
      exact hm.of_mem_singleton
    · apply follows_handled hf.only
      · intro c hc
        rw [hmap, AList.lookup_erase_ne hc]
      · exact hf.apart
      · rw [handled_wires, if_pos rfl, handled_lookup, if_pos rfl, trail_append, hsend, hm.trail_cons]
        exact hf.stage.leave hold hgone
    · intro id' hne
      apply sameFor_handled
      · intro c
        rw [hmap]
        exact AList.lookup_erase_of_value_ne hold hne
      · rw [hsend, hm.trail_cons_ne hne]
        rfl

theorem State.Inv.deliver (hs : s.Inv) {m : Message} {ms : List Message} (hw : s.wires i = m :: ms) :
    State.Inv { s with wires := Function.update s.wires i ms, tasks := s.tasks ++ [m] } := by
  obtain ⟨id,n,hm⟩ := hs.sent i m (by rw [hw]; exact List.mem_cons_self)
  have htrail : trail id (s.wires i) = n :: trail id ms := by rw [hw, hm.trail_cons]
  have hid : id ∈ s.used := hs.used_of_not_unheard (fun hu => by simp [hu.wires i] at htrail)
  obtain ⟨j,c,hf⟩ := hs.follows id hid
  obtain rfl := hf.eq_of_wire (j := i) (by simp [htrail])
  refine hs.step_about hs.master ?_ ?_ (Finset.insert_eq_of_mem hid).symm ⟨i,c,?_⟩ ?_
  · intro j m' hm'
    dsimp only at hm'
    rw [Function.update_apply] at hm'
    split at hm'
    · exact hs.sent i m' (by rw [hw]; exact List.mem_cons_of_mem m hm')
    · exact hs.sent j m' hm'
  · intro m' hm'
    rcases List.mem_append.mp hm' with hm' | hm'
    · exact hs.pending m' hm'
    · obtain rfl := List.mem_singleton.mp hm'
      exact ⟨id,n,hm⟩
  · refine ⟨hf.only,?_,?_⟩
    · intro j hj
      simp only [Function.update_of_ne hj]
      exact hf.apart j hj
    · have hst := hf.stage
      rw [htrail] at hst
      simp only [Function.update_self, trail_append, hm.trail_cons, trail_nil]
      exact hst.arrive
  · intro id' hne
    refine ⟨Iff.rfl,fun _ _ => Iff.rfl,?_,?_⟩
    · intro j
      dsimp only
      rw [Function.update_apply]
      split
      · rename_i hj
        rw [hj, hw, hm.trail_cons_ne hne]
      · rfl
    · simp only [trail_append, hm.trail_cons_ne hne, trail_nil, List.append_nil]

omit [DecidableEq ι] in
/-- A user whose join is pending is unknown to the master. -/
theorem State.Inv.not_member_of_pending (hs : s.Inv) {m : Message} {id : UserId}
    (hm : Carries m id .join) (hmem : m ∈ s.tasks) : id ∉ s.master.userIds := by
  have hjoin : .join ∈ trail id s.tasks :=
    List.mem_filterMap.mpr ⟨m,hmem,by rw [hm.noticeOf_eq, if_pos rfl]⟩
  have hid : id ∈ s.used := hs.used_of_not_unheard (fun hu => by simp [hu.tasks] at hjoin)
  obtain ⟨i,c,hf⟩ := hs.follows id hid
  exact hf.stage.not_member_of_join hjoin

omit [DecidableEq ι] in
/-- A task runs: it changes what the master knows about its own user only. -/
theorem State.Inv.run_task (hs : s.Inv) {before after : List Message} {m : Message} {id : UserId}
    {n : Notice} {w : World} (ht : s.tasks = before ++ m :: after) (hm : Carries m id n)
    (hw : MasterInv w) (hother : ∀ id', id' ≠ id → (id' ∈ w.userIds ↔ id' ∈ s.master.userIds))
    (hstage : ∀ {active : Prop} {queue : List Notice},
      Stage (id ∈ s.master.userIds) active queue (trail id before ++ n :: trail id after) →
      Stage (id ∈ w.userIds) active queue (trail id before ++ trail id after)) :
    State.Inv { s with master := w, tasks := before ++ after } := by
  have htrail : trail id s.tasks = trail id before ++ n :: trail id after := by
    rw [ht, trail_append, hm.trail_cons]
  have hid : id ∈ s.used := hs.used_of_not_unheard (fun hu => by simp [hu.tasks] at htrail)
  obtain ⟨i,c,hf⟩ := hs.follows id hid
  refine hs.step_about hw hs.sent ?_ (Finset.insert_eq_of_mem hid).symm ⟨i,c,?_⟩ ?_
  · intro m' hm'
    apply hs.pending m'
    rw [ht, List.mem_append, List.mem_cons]
    exact (List.mem_append.mp hm').imp_right Or.inr
  · refine ⟨hf.only,hf.apart,?_⟩
    have hst := hf.stage
    rw [htrail] at hst
    rw [trail_append]
    exact hstage hst
  · intro id' hne
    refine ⟨hother id' hne,fun _ _ => Iff.rfl,fun _ => rfl,?_⟩
    rw [ht, trail_append, trail_append, hm.trail_cons_ne hne]

end

section
variable {ι : Type} (S : Setup ι)

theorem handleAddUser_master (env : Surroundings) (w : World) (peerId : PeerIdentity) {m : Message}
    {user : User} (hop : m.operation = .AddUser) (hc : m.content = some (.user user)) :
    (handleMsgTask env S.masterCtx w peerId m).world = w.addUser user := by
  rw [handleMsgTask_world S.masterCtx_nodeType]
  simp [masterOps, hop, hc, Content.asUser, World.apply, WorldOp.run]

theorem handleDelUser_master (env : Surroundings) (w : World) (peerId : PeerIdentity) {m : Message}
    {id : UserId} (hop : m.operation = .DelUser) (hid : m.userId = some id) :
    (handleMsgTask env S.masterCtx w peerId m).world = (w.removeUser id).state := by
  rw [handleMsgTask_world S.masterCtx_nodeType]
  simp [masterOps, hop, hid, World.apply, WorldOp.run]

variable [DecidableEq ι] {s : State ι}

theorem State.Inv.run (hs : s.Inv) {k : ℕ} {env : Surroundings} {peerId : PeerIdentity}
    (hc : s.Careful (.run k env peerId)) : (s.next S (.run k env peerId)).Inv := by
  simp only [State.next]
  cases hk : s.tasks[k]? with
  | none => exact hs
  | some m =>
    obtain ⟨before,after,ht,he⟩ := Pool.split_eraseIdx hk
    have hmem : m ∈ s.tasks := by
      rw [ht]
      exact List.mem_append_cons_self
    obtain ⟨id,n,hm⟩ := hs.pending m hmem
    simp only [he]
    have hm' := hm
    cases hm' with
    | @add user hop hcont huid hin hn hstill =>
      have hnot : user.id ∉ s.master.userIds := hs.not_member_of_pending hm hmem
      rw [handleAddUser_master S env s.master peerId hop hcont]
      refine hs.run_task ht hm (hs.master.addUser hnot hin hn hstill) ?_ ?_
      · intro id' hne
        rw [userIds_addUser]
        simp [hne]
      · intro active queue hst
        exact hst.runJoin ((userIds_addUser _ _).mpr (Or.inr rfl))
    | del hop huid =>
      obtain ⟨hw,hids⟩ := hs.master.removeUser id
      rw [handleDelUser_master S env s.master peerId hop huid]
      refine hs.run_task ht hm hw ?_ ?_
      · intro id' hne
        rw [hids]
        simp [hne]
      · intro active queue hst
        apply hst.runLeave
        · intro hjoin
          rw [← trail_append] at hjoin
          obtain ⟨m',hm',hop',huid'⟩ := exists_of_join_mem hjoin
          have hmem' : m' ∈ s.tasks := by
            rw [ht, List.mem_append, List.mem_cons]
            exact (List.mem_append.mp hm').imp_right Or.inr
          exact hc m hk hop m' hmem' hop' (huid'.trans huid.symm)
        · rw [hids]
          simp

theorem State.Inv.next (hs : s.Inv) {a : Act ι} (ha : s.Admissible a) (hc : s.Careful a) :
    (s.next S a).Inv := by
  cases a with
  | request i env peerId msg =>
    simp only [State.next]
    rcases ha with hop | ⟨hop,hfresh,hin⟩
    · simp only [hop, reduceCtorEq, if_false]
      exact hs.handled_ends
        (ends_logout (S.slaveCtx_nodeType i) (S.slaveCtx_alive i) (s.slaves i) env peerId hop)
    · simp only [hop, if_true]
      exact hs.handled_begins hfresh (begins_login (S.slaveCtx_nodeType i) (S.slaveCtx_alive i)
        (s.slaves i) hin (hc hop) peerId hop)
  | expire i clientId =>
    exact hs.handled_ends
      (ends_expire (S.slaveCtx_nodeType i) (S.slaveCtx_alive i) (s.slaves i) clientId)
  | deliver i =>
    simp only [State.next]
    cases hw : s.wires i with
    | nil => exact hs
    | cons m ms => exact hs.deliver hw
  | run k env peerId => exact hs.run S hc
  | round =>
    obtain ⟨hw,hids⟩ := hs.master.update
    simp only [State.next, worldUpdateRound_of_master S.masterCtx_nodeType]
    refine hs.step_quiet hw rfl rfl rfl (fun id => ⟨?_,fun _ _ => Iff.rfl,fun _ => rfl,rfl⟩)
    rw [hids]

omit [DecidableEq ι] in
/-- Once all is quiet the users of the master are those of the sessions. -/
theorem State.Inv.quiet (hs : s.Inv) (hq : s.Quiet) :
    mapIds s.master.maps = s.sessionIds ∧ s.master.userIds = s.sessionIds := by
  have hids : s.master.userIds = s.sessionIds := by
    ext id
    by_cases hid : id ∈ s.used
    · obtain ⟨i,c,hf⟩ := hs.follows id hid
      have hst := hf.stage
      rw [hq.1 i, hq.2] at hst
      rw [hst.quiet]
      constructor
      · intro hl
        exact ⟨i,c,hl⟩
      · rintro ⟨j,c',hl⟩
        obtain ⟨rfl,rfl⟩ := hf.only j c' hl
        exact hl
    · have hu := hs.unheard id hid
      refine iff_of_false hu.member ?_
      rintro ⟨j,c',hl⟩
      exact hu.sessions j c' hl
  exact ⟨hs.master.balanced.trans hids,hids⟩

/-- No `DelUser` overtakes an `AddUser` of its user: then nobody is lost or left over
once all is quiet. -/
theorem users_eq_sessions {past : List (State ι × Act ι)} (h : Run (lts S) past s)
    (hc : ∀ p ∈ past, p.1.Careful p.2) (hq : s.Quiet) :
    mapIds s.master.maps = s.sessionIds ∧ s.master.userIds = s.sessionIds := by
  have hi : s.Inv := by
    apply Run.invariant_of (C := fun s a => s.Careful a) _ _ h hc
    · rintro s rfl
      exact State.inv_start S
    · rintro s a t hs hc ⟨ha,rfl⟩
      exact hs.next S ha hc
  exact hi.quiet hq

end

/-! ## One slave and one client -/

def State.pair (master slave : World) (wire tasks : List Message) (used : Finset UserId) : State Unit where
  master := master
  slaves _ := slave
  wires _ := wire
  tasks := tasks
  used := used

section
variable (S : Setup Unit) (env : Surroundings) (peerId : PeerIdentity)

def joinMessage : Message :=
  (Message.addUser (S.slaveCtx ()).selfNodeInfo.getKey
    (User.randomWithoutVelocity env.nextId env.randPosition)).setPeerId peerId

def leaveMessage : Message :=
  (Message.delUser (S.slaveCtx ()).selfNodeInfo.getKey env.nextId).setPeerId peerId

def newUser : User := User.randomWithoutVelocity env.nextId env.randPosition

variable {S env peerId} (w v : World) (wire tasks : List Message) (used : Finset UserId)

theorem run_step {s t : State Unit} {past : List (State Unit × Act Unit)} (h : Run (lts S) past s)
    (a : Act Unit) (ha : s.Admissible a) (he : s.next S a = t) : Run (lts S) ((s,a) :: past) t :=
  Run.next h ⟨ha,he.symm⟩

theorem State.handled_pair (h : Handled) (used' : Finset UserId) :
    (State.pair w v wire tasks used).handled () h used' =
      State.pair w h.world (wire ++ h.toMaster) tasks used' := by
  simp only [State.pair, State.handled, Function.update_eq_const_of_subsingleton]
  rfl

theorem next_login {c : String} (hfree : v.clientMap.lookup c = none) :
    (State.pair w v wire tasks used).next S (.request () env peerId (Message.login c)) =
      State.pair w { v with clientMap := v.clientMap.insert c env.nextId }
        (wire ++ [joinMessage S env peerId]) tasks (insert env.nextId used) := by
  have hh : handleMsgTask env (S.slaveCtx ()) v peerId (Message.login c) =
      { Handled.done { v with clientMap := v.clientMap.insert c env.nextId } with
        toMaster := [joinMessage S env peerId] } := by
    simp only [handleMsgTask, Message.login, handleLogin, hfree, S.slaveCtx_nodeType (), S.slaveCtx_alive ()]
    rfl
  have hstep : (State.pair w v wire tasks used).next S (.request () env peerId (Message.login c)) =
      (State.pair w v wire tasks used).handled ()
        (handleMsgTask env (S.slaveCtx ()) v peerId (Message.login c)) (insert env.nextId used) := rfl
  rw [hstep, hh, State.handled_pair w v wire tasks used]
  rfl

theorem next_logout {c : String} (hl : v.clientMap.lookup c = some env.nextId) :
    (State.pair w v wire tasks used).next S (.request () env peerId (Message.logout c)) =
      State.pair w { v with clientMap := v.clientMap.erase c }
        (wire ++ [leaveMessage S env peerId]) tasks used := by
  have hh : handleMsgTask env (S.slaveCtx ()) v peerId (Message.logout c) =
      { Handled.done { v with clientMap := v.clientMap.erase c } with
        toMaster := [leaveMessage S env peerId] } := by
    simp only [handleMsgTask, Message.logout, handleLogout, hl, S.slaveCtx_nodeType (), Handled.forward,
      S.slaveCtx_alive (), if_true]
    rfl
  have hstep : (State.pair w v wire tasks used).next S (.request () env peerId (Message.logout c)) =
      (State.pair w v wire tasks used).handled ()
        (handleMsgTask env (S.slaveCtx ()) v peerId (Message.logout c)) used := rfl
  rw [hstep, hh, State.handled_pair w v wire tasks used]
  rfl

theorem next_deliver (m : Message) :
    (State.pair w v (m :: wire) tasks used).next S (.deliver ()) =
      State.pair w v wire (tasks ++ [m]) used := by
  simp only [State.pair, State.next, Function.update_eq_const_of_subsingleton]
  rfl

theorem next_run {k : ℕ} {m : Message} (hk : tasks[k]? = some m) :
    (State.pair w v wire tasks used).next S (.run k env peerId) =
      State.pair (handleMsgTask env S.masterCtx w peerId m).world v wire (tasks.eraseIdx k) used := by
  simp only [State.pair, State.next, hk]

theorem next_run_join (peerId : PeerIdentity) :
    (State.pair w v wire [joinMessage S env peerId] used).next S (.run 0 env peerId) =
      State.pair (w.addUser (newUser env)) v wire [] used := by
  rw [next_run _ _ _ _ _ rfl, handleAddUser_master S env w peerId rfl rfl]
  rfl

def sessionOf (S : Setup Unit) (env : Surroundings) (c : String) : World :=
  { World.init (S.slaveConf ()) with clientMap := (∅ : HashMap String UserId).insert c env.nextId }

def sessionEnded (S : Setup Unit) (env : Surroundings) (c : String) : World :=
  { World.init (S.slaveConf ()) with
    clientMap := ((∅ : HashMap String UserId).insert c env.nextId).erase c }

variable {c : String} (hin : InWorld env.randPosition)
include hin

theorem run_login (c : String) :
    Run (lts S) [(State.start S,.request () env peerId (Message.login c))]
      (State.pair (World.init S.masterConf) (sessionOf S env c) [joinMessage S env peerId] []
        (insert env.nextId ∅)) := by
  refine Run.next (Run.start rfl) ⟨Or.inr ⟨rfl,Finset.notMem_empty _,hin⟩,?_⟩
  exact (next_login (S := S) _ (World.init (S.slaveConf ())) [] _ _ rfl).symm

/-- The client logs out again, and the master deletes its user before it adds it. -/
theorem run_overtaken (peerId : PeerIdentity) (c : String) : ∃ past, Run (lts S) past
    (State.pair ((World.init S.masterConf).addUser (newUser env)) (sessionEnded S env c) [] []
      (insert env.nextId ∅)) := by
  have hdel : (handleMsgTask env S.masterCtx (World.init S.masterConf) peerId
      (leaveMessage S env peerId)).world = World.init S.masterConf := by
    have hno : env.nextId ∉ (World.init S.masterConf).userIds := by
      rw [userIds_init]
      exact Set.notMem_empty _
    have hw := handleDelUser_master S env (World.init S.masterConf) peerId
      (m := leaveMessage S env peerId) rfl rfl
    rw [hw, removeUser_of_not_stored hno, Outcome.ok_state]
  have hl : (sessionOf S env c).clientMap.lookup c = some env.nextId := AList.lookup_insert _
  have h₁ : Run (lts S) _ (State.pair (World.init S.masterConf) (sessionOf S env c)
      [joinMessage S env peerId] [] (insert env.nextId ∅)) := run_login hin c
  have h₂ : Run (lts S) _ (State.pair (World.init S.masterConf) (sessionEnded S env c)
      [joinMessage S env peerId,leaveMessage S env peerId] [] (insert env.nextId ∅)) :=
    run_step h₁ (.request () env peerId (Message.logout c)) (Or.inl rfl) (next_logout _ _ [_] _ _ hl)
  have h₃ : Run (lts S) _ (State.pair (World.init S.masterConf) (sessionEnded S env c)
      [leaveMessage S env peerId] [joinMessage S env peerId] (insert env.nextId ∅)) :=
    run_step h₂ (.deliver ()) trivial (next_deliver _ _ _ [] _ _)
  have h₄ : Run (lts S) _ (State.pair (World.init S.masterConf) (sessionEnded S env c)
      [] [joinMessage S env peerId,leaveMessage S env peerId] (insert env.nextId ∅)) :=
    run_step h₃ (.deliver ()) trivial (next_deliver _ _ _ [_] _ _)
  have hran : (State.pair (World.init S.masterConf) (sessionEnded S env c) []
      [joinMessage S env peerId,leaveMessage S env peerId] (insert env.nextId ∅)).next S
        (.run 1 env peerId) = State.pair (World.init S.masterConf) (sessionEnded S env c) []
      [joinMessage S env peerId] (insert env.nextId ∅) := by
    rw [next_run _ _ _ _ _ rfl, hdel]
    rfl
  exact ⟨_,run_step (run_step h₄ (.run 1 env peerId) trivial hran) (.run 0 env peerId) trivial
    (next_run_join _ _ _ _ _)⟩

variable (hn : ¬ Unmapped env.randPosition)
include hn

/-- The user that was deleted too early stays, although no session is left. -/
theorem ghost_of_overtaking : ∃ past s, Run (lts S) past s ∧ s.Quiet ∧
    env.nextId ∈ mapIds s.master.maps ∧ env.nextId ∈ s.master.userIds ∧ env.nextId ∉ s.sessionIds := by
  obtain ⟨past,hrun⟩ := run_overtaken (S := S) hin "" ""
  refine ⟨past,_,hrun,⟨fun _ => rfl,rfl⟩,?_,?_,?_⟩
  · exact (mapIds_addUser (settled_init _) hin).mpr (Or.inr ⟨rfl,hn⟩)
  · exact (userIds_addUser _ _).mpr (Or.inr rfl)
  · rintro ⟨i,c,hl⟩
    have hl' : (((∅ : HashMap String UserId).insert "" env.nextId).erase "").lookup c =
      some env.nextId := hl
    by_cases hc : c = ""
    · rw [hc, AList.lookup_erase] at hl'
      cases hl'
    · rw [AList.lookup_erase_ne hc, AList.lookup_insert_ne hc] at hl'
      cases hl'

end

/-- The master of `conf.toml` and the slave of `slave1.toml`. -/
def pairSetup : Setup Unit where
  masterConf := .master
  slaveConf _ := .slave
  masterType := rfl
  slaveType _ := rfl
  slaveMode _ := rfl

/-- Two clients log in, the master adds the second one first, and the second one logs out. -/
def comeAndGo : List (Act Unit) :=
  [.request () .plain "client" (Message.login "client"),.request () .guest "guest" (Message.login "guest"),
    .deliver (),.deliver (),.run 1 .plain "slave",.run 0 .plain "slave",
    .request () .plain "guest" (Message.logout "guest"),.deliver (),.run 0 .plain "slave",.round]

theorem careful_run {s : State Unit} (h : (∀ m ∈ s.tasks, m.operation ≠ .DelUser) ∨
    ∀ m ∈ s.tasks, m.operation ≠ .AddUser) (k : ℕ) (env : Surroundings) (peerId : PeerIdentity) :
    s.Careful (.run k env peerId) := by
  intro m hm hdel m' hm' hadd
  rcases h with h | h
  · exact absurd hdel (h m (List.mem_of_getElem? hm))
  · exact absurd hadd (h m' hm')

theorem careful_comeAndGo : Run.Allowed (State.next pairSetup) (fun s a => s.Admissible a ∧ s.Careful a)
    (State.start pairSetup) comeAndGo := by
  have hin : InWorld Surroundings.plain.randPosition ∧ InWorld Surroundings.guest.randPosition := by decide
  have hn : ¬ Unmapped Surroundings.plain.randPosition ∧ ¬ Unmapped Surroundings.guest.randPosition := by decide
  refine ⟨⟨Or.inr ⟨rfl,Finset.notMem_empty _,hin.1⟩,fun _ => hn.1⟩,
    ⟨Or.inr ⟨rfl,by decide +kernel,hin.2⟩,fun _ => hn.2⟩,⟨trivial,trivial⟩,⟨trivial,trivial⟩,
    ⟨trivial,careful_run (Or.inl ?_) _ _ _⟩,⟨trivial,careful_run (Or.inl ?_) _ _ _⟩,
    ⟨Or.inl rfl,fun h => by cases h⟩,⟨trivial,trivial⟩,⟨trivial,careful_run (Or.inr ?_) _ _ _⟩,
    ⟨trivial,trivial⟩,trivial⟩
  · decide +kernel
  · decide +kernel
  · decide +kernel

theorem users_eq_sessions_comeAndGo : ∃ past s, Run (lts pairSetup) past s ∧
    past.map Prod.snd = comeAndGo.reverse ∧ mapIds s.master.maps = s.sessionIds ∧
    s.master.userIds = s.sessionIds := by
  have hrun := Run.of_start (M := lts pairSetup) (State.next pairSetup) _ id (fun _ _ h => ⟨h.1,rfl⟩) rfl
    careful_comeAndGo
  refine ⟨_,_,hrun,rfl,users_eq_sessions pairSetup hrun
    (Run.forall_record (P := State.Careful) (fun _ _ h => h.2) careful_comeAndGo) ⟨fun _ => ?_,?_⟩⟩
  · rfl
  · rfl

/-- User 2 logs in at (5, 7) and out again, and its `DelUser` task runs first. -/
theorem ghost_of_first_login : ∃ past s, Run (lts pairSetup) past s ∧ s.Quiet ∧
    (2 : UserId) ∈ mapIds s.master.maps ∧ (2 : UserId) ∈ s.master.userIds ∧
    (2 : UserId) ∉ s.sessionIds := by
  have hin : InWorld Surroundings.plain.randPosition := by decide
  have hn : ¬ Unmapped Surroundings.plain.randPosition := by decide
  exact ghost_of_overtaking (S := pairSetup) hin hn

end GameServer.Cluster
