import GameServer.Server.Heartbeat

/-! # The load a node reports

The monitor counts the clients whose pings it kept when it ends a pass. The world clock and
a snapshot from the master copy that count into the state that is logged and reported, and
nothing else touches either. So what a node reports is the number of clients that were alive
at the end of a pass, as that number was when the world was last brought up to date.
-/
namespace GameServer.Server
open Common Library Detector

/-! ## What looks at the connections -/

def World.SameLoad (w v : World) : Prop := v.connectionCount = w.connectionCount ∧ v.stateInfo = w.stateInfo

theorem sameLoad_removeUser (w : World) (id : UserId) : w.SameLoad (w.removeUser id).state := by
  rcases removeUser_cases w id with ⟨-,he⟩ | ⟨v,-,-,he⟩ | ⟨v,-,-,he⟩ <;> rw [he] <;> exact ⟨rfl,rfl⟩

/-- Only the world clock looks at the connections. -/
theorem sameLoad_run (overflow : Overflow) (w : World) {a : WorldOp} (ha : a ≠ .update) :
    w.SameLoad (a.run overflow w).state := by
  cases a with
  | addUser user => exact ⟨rfl,rfl⟩
  | removeUser userId => exact sameLoad_removeUser w userId
  | login clientId userId => exact ⟨rfl,rfl⟩
  | logout clientId => exact ⟨rfl,rfl⟩
  | removeUserByClientId clientId =>
    simp only [WorldOp.run, World.removeUserByClientId]
    cases w.clientMap.lookup clientId with
    | none => exact ⟨rfl,rfl⟩
    | some id => exact sameLoad_removeUser { w with clientMap := w.clientMap.erase clientId } id
  | setVelocity id velocity =>
    simp only [WorldOp.run, World.setVelocity]
    cases w.users.lookup id <;> exact ⟨rfl,rfl⟩
  | aoe order id radius money =>
    simp only [WorldOp.run]
    rw [(credited_aoe overflow order w id radius money).rest]
    exact ⟨rfl,rfl⟩
  | update => exact absurd rfl ha

theorem sameLoad_apply {overflow : Overflow} (w : World) {ops : List WorldOp} (h : ∀ a ∈ ops, a ≠ .update) :
    w.SameLoad (w.apply overflow ops) := by
  induction ops generalizing w with
  | nil => exact ⟨rfl,rfl⟩
  | cons a ops ih =>
    obtain ⟨ha,hops⟩ := List.forall_mem_cons.mp h
    obtain ⟨hc,hs⟩ := ih (a.run overflow w).state hops
    obtain ⟨hc',hs'⟩ := sameLoad_run overflow w ha
    exact ⟨hc.trans hc',hs.trans hs'⟩

theorem masterOps_ne_update (env : Surroundings) (w : World) (msg : Message) :
    ∀ a ∈ masterOps env w msg, a ≠ .update := by
  intro a ha he
  subst he
  unfold masterOps at ha
  split at ha
  · split at ha <;> simp at ha
  · simp at ha
  · rw [Option.mem_toList, Option.map_eq_some_iff] at ha
    obtain ⟨user,-,hu⟩ := ha
    cases hu
  · simp at ha
  · split at ha <;> simp at ha
  · split at ha <;> simp at ha
  · cases ha

theorem slaveOps_ne_update (env : Surroundings) (ctx : ServerContext) (w : World) (msg : Message) :
    ∀ a ∈ slaveOps env ctx w msg, a ≠ .update := by
  intro a ha he
  subst he
  unfold slaveOps at ha
  split at ha
  · split at ha <;> simp at ha
  · simp at ha
  · split at ha
    · cases ha
    · exact masterOps_ne_update env w msg _ ha rfl
  · split at ha
    · cases ha
    · exact masterOps_ne_update env w msg _ ha rfl
  · exact masterOps_ne_update env w msg _ ha rfl

theorem sameLoad_handleMsgTask (env : Surroundings) (ctx : ServerContext) (w : World) (peerId : PeerIdentity)
    (msg : Message) : w.SameLoad (handleMsgTask env ctx w peerId msg).world := by
  cases hn : ctx.nodeType with
  | Master =>
    rw [handleMsgTask_world hn]
    exact sameLoad_apply w (masterOps_ne_update env w msg)
  | Slave =>
    rw [handleMsgTask_world_of_slave hn]
    exact sameLoad_apply w (slaveOps_ne_update env ctx w msg)

theorem sameLoad_removeOfflineClient (ctx : ServerContext) (w : World) (clientId : String) :
    w.SameLoad (removeOfflineClient ctx w clientId).world := by
  cases hn : ctx.nodeType with
  | Master =>
    rw [removeOfflineClient_world hn]
    exact sameLoad_run .wraps w (a := .removeUserByClientId clientId) (fun he => by cases he)
  | Slave =>
    rcases removeOfflineClient_world_of_slave hn w clientId with he | he <;> rw [he] <;> exact ⟨rfl,rfl⟩

def RefreshesLoad (p : MonitoredNode × Option MonitoredAct) : Prop :=
  match p.2 with
  | some .round => (p.1.context.mode = .Cluster → p.1.context.nodeType = .Master) ∧
      p.1.node.world.update.panic = none
  | some (.syncWorld dto) => (p.1.node.world.syncFromMaster dto).panic = none
  | _ => False

/-- The clients whose entries the last pass that was through has kept. -/
def counted (heartbeat : ℤ) : List (MonitoredNode × Option MonitoredAct) → Set String
  | [] => ∅
  | p :: past =>
    match p.2 with
    | some .finish => {c | ∃ t, lastSign c (pingsIn (p :: past)) = some t ∧
        InTime id heartbeat c (pingsIn (p :: past))}
    | _ => counted heartbeat past

open scoped Classical in
/-- Those that were counted when the node last brought its load up to date. -/
noncomputable def shown (heartbeat : ℤ) : List (MonitoredNode × Option MonitoredAct) → Set String
  | [] => ∅
  | p :: past => if RefreshesLoad p then counted heartbeat past else shown heartbeat past

theorem update_load (w : World) : w.update.state.connectionCount = w.connectionCount ∧
    w.update.state.stateInfo.maxConnection = w.stateInfo.maxConnection ∧
    (w.update.panic ≠ none → w.update.state.stateInfo = w.stateInfo) ∧
    (w.update.panic = none → w.update.state.stateInfo.currentConnection = w.connectionCount ∧
      w.update.state.stateInfo.loadFactor =
        (w.connectionCount.toNat : ℚ) / w.stateInfo.maxConnection.toNat) := by
  unfold World.update
  dsimp only
  split
  · exact ⟨rfl,rfl,fun _ => rfl,fun he => by cases he⟩
  · exact ⟨rfl,rfl,fun he => absurd rfl he,fun _ => ⟨rfl,rfl⟩⟩

theorem syncFromMaster_load (w : World) (dto : WorldSyncDTO) :
    (w.syncFromMaster dto).state.connectionCount = w.connectionCount ∧
    (w.syncFromMaster dto).state.stateInfo.maxConnection = w.stateInfo.maxConnection ∧
    ((w.syncFromMaster dto).panic ≠ none → (w.syncFromMaster dto).state.stateInfo = w.stateInfo) ∧
    ((w.syncFromMaster dto).panic = none →
      (w.syncFromMaster dto).state.stateInfo.currentConnection = w.connectionCount ∧
      (w.syncFromMaster dto).state.stateInfo.loadFactor =
        (w.connectionCount.toNat : ℚ) / w.stateInfo.maxConnection.toNat) := by
  unfold World.syncFromMaster
  dsimp only
  split
  · exact ⟨rfl,rfl,fun _ => rfl,fun he => by cases he⟩
  · exact ⟨rfl,rfl,fun he => absurd rfl he,fun _ => ⟨rfl,rfl⟩⟩

/-- What the load of a world says is consistent with the limit of the configuration. -/
structure World.LoadOk (conf : GameServerConf) (w : World) : Prop where
  maxConnection : w.stateInfo.maxConnection = conf.basic.maxConnection
  loadFactor : w.stateInfo.loadFactor =
    (w.stateInfo.currentConnection.toNat : ℚ) / conf.basic.maxConnection.toNat

/-- With a limit of zero there is no such quotient. -/
theorem World.LoadOk.loadFactor_mul {conf : GameServerConf} {w : World} (h : w.LoadOk conf)
    (hlimit : 0 < conf.basic.maxConnection.toNat) :
    w.stateInfo.loadFactor * conf.basic.maxConnection.toNat = w.stateInfo.currentConnection.toNat := by
  have hne : (conf.basic.maxConnection.toNat : ℚ) ≠ 0 := Nat.cast_ne_zero.mpr hlimit.ne'
  rw [h.loadFactor, div_mul_cancel₀ _ hne]

/-- What a step does to the load: only `update_state_info` shows the count. -/
structure Loads (conf : GameServerConf) (refreshes : Prop) (w v : World) : Prop where
  ok : w.LoadOk conf → v.LoadOk conf
  refreshed : refreshes → v.stateInfo.currentConnection = w.connectionCount
  kept : ¬ refreshes → v.stateInfo.currentConnection = w.stateInfo.currentConnection

theorem Loads.of_stateInfo {conf : GameServerConf} {w v : World} (h : v.stateInfo = w.stateInfo)
    {refreshes : Prop} (hno : ¬ refreshes) : Loads conf refreshes w v where
  ok hok := ⟨by rw [h, hok.maxConnection],by rw [h, hok.loadFactor]⟩
  refreshed hr := absurd hr hno
  kept _ := by rw [h]

theorem Loads.of_outcome {conf : GameServerConf} {w : World} {o : Outcome Panic World}
    (hmax : o.state.stateInfo.maxConnection = w.stateInfo.maxConnection)
    (hfail : o.panic ≠ none → o.state.stateInfo = w.stateInfo)
    (hok : o.panic = none → o.state.stateInfo.currentConnection = w.connectionCount ∧
      o.state.stateInfo.loadFactor = (w.connectionCount.toNat : ℚ) / w.stateInfo.maxConnection.toNat) :
    Loads conf (o.panic = none) w o.state := by
  by_cases hp : o.panic = none
  · obtain ⟨hcur,hload⟩ := hok hp
    refine ⟨?_,fun _ => hcur,fun hno => absurd hp hno⟩
    intro h
    exact ⟨hmax.trans h.maxConnection,by rw [hload, hcur, h.maxConnection]⟩
  · exact Loads.of_stateInfo (hfail hp) hp

section
variable {conf : GameServerConf} {s t : MonitoredNode} {a : Option MonitoredAct}

theorem sameLoad_visit (heartbeat : ℤ) (s : MonitoredNode) (p : MonitorPass) (e : Σ _ : String, ℤ) (now : ℤ) :
    s.node.world.SameLoad (s.visit heartbeat p e now).node.world := by
  unfold MonitoredNode.visit
  dsimp only
  split
  · exact sameLoad_removeOfflineClient s.context s.node.world e.1
  · exact ⟨rfl,rfl⟩

theorem load_round (conf : GameServerConf) (s : MonitoredNode) :
    (worldUpdateRound s.context s.node.world).state.connectionCount = s.node.world.connectionCount ∧
      Loads conf (RefreshesLoad (s,some .round)) s.node.world
        (worldUpdateRound s.context s.node.world).state := by
  obtain ⟨hcount,hmax,hfail,hok⟩ := update_load s.node.world
  have hupdate : Loads conf (s.node.world.update.panic = none) s.node.world s.node.world.update.state :=
    Loads.of_outcome hmax hfail hok
  by_cases howns : s.context.mode = .Cluster → s.context.nodeType = .Master
  · have hround : worldUpdateRound s.context s.node.world = s.node.world.update := by
      unfold worldUpdateRound
      split
      · rename_i hmode
        rw [howns hmode]
      · rfl
    rw [hround]
    refine ⟨hcount,hupdate.ok,?_,?_⟩
    · exact fun hr => hupdate.refreshed hr.2
    · exact fun hno => hupdate.kept (fun hp => hno ⟨howns,hp⟩)
  · have hno : ¬ RefreshesLoad (s,some .round) := fun hr => howns hr.1
    have hround : worldUpdateRound s.context s.node.world = Outcome.ok s.node.world := by
      unfold worldUpdateRound
      obtain ⟨hmode,hnode⟩ := Classical.not_imp.mp howns
      rw [if_pos hmode]
      cases hn : s.context.nodeType with
      | Master => exact absurd hn hnode
      | Slave => rfl
    rw [hround]
    exact ⟨rfl,Loads.of_stateInfo rfl hno⟩

theorem load_step (hst : MonitoredStep conf.basic.heartbeat s a t) :
    Loads conf (RefreshesLoad (s,a)) s.node.world t.node.world ∧
      (a ≠ some .finish → t.node.world.connectionCount = s.node.world.connectionCount) := by
  cases hst with
  | @reorder w lastTime hw hs =>
    have hsame : s.node.world.SameLoad w := by
      rw [hw.rest]
      exact ⟨rfl,rfl⟩
    exact ⟨Loads.of_stateInfo hsame.2 (fun hr => hr),fun _ => hsame.1⟩
  | @act a ha =>
    cases a with
    | request env peerId msg =>
      obtain ⟨hcount,hinfo⟩ := sameLoad_handleMsgTask env s.context s.node.world peerId msg
      exact ⟨Loads.of_stateInfo hinfo (fun hr => hr),fun _ => hcount⟩
    | round =>
      obtain ⟨hcount,hload⟩ := load_round conf s
      exact ⟨hload,fun _ => hcount⟩
    | syncWorld dto =>
      obtain ⟨hcount,hmax,hfail,hok⟩ := syncFromMaster_load s.node.world dto
      exact ⟨Loads.of_outcome hmax hfail hok,fun _ => hcount⟩
    | visit now =>
      obtain ⟨p,hp,hne⟩ := ha
      obtain ⟨e,left,hl⟩ := List.exists_cons_of_ne_nil hne
      obtain ⟨left',delList,clock⟩ := p
      dsimp only at hl
      subst hl
      simp only [MonitoredNode.next, hp]
      obtain ⟨hcount,hinfo⟩ := sameLoad_visit conf.basic.heartbeat s
        { left := left, delList := delList, clock := clock } e now
      exact ⟨Loads.of_stateInfo hinfo (fun hr => hr),fun _ => hcount⟩
    | finish =>
      obtain ⟨p,hp,-⟩ := ha
      simp only [MonitoredNode.next, hp]
      have hinfo : (s.finish p).node.world.stateInfo = s.node.world.stateInfo := rfl
      exact ⟨Loads.of_stateInfo hinfo (fun hr => hr),fun hne => absurd rfl hne⟩
    | convertToMaster => exact ⟨Loads.of_stateInfo rfl (fun hr => hr),fun _ => rfl⟩
    | ping clientId now => exact ⟨Loads.of_stateInfo rfl (fun hr => hr),fun _ => rfl⟩
    | lock => exact ⟨Loads.of_stateInfo rfl (fun hr => hr),fun _ => rfl⟩

end

theorem count_finish {heartbeat : ℤ} {s t : MonitoredNode} (hst : MonitoredStep heartbeat s (some .finish) t) :
    t.node.world.connectionCount = UInt32.ofNat {c | c ∈ t.lastTime}.ncard := by
  cases hst with
  | act ha =>
    obtain ⟨p,hp,-⟩ := ha
    simp only [MonitoredNode.next, hp, AList.ncard_mem]
    rfl

/-- The clients the table holds are those that pinged and were in time ever since. -/
theorem lastTime_clients {conf : GameServerConf} {past : List (MonitoredNode × Option MonitoredAct)}
    {s : MonitoredNode} (h : Run (monitoredLts conf) past s) :
    {c | ∃ t, lastSign c (pingsIn past) = some t ∧ InTime id conf.basic.heartbeat c (pingsIn past)} =
      {c | c ∈ s.lastTime} := by
  ext c
  have htable := congrFun (lastTime_eq_watched h) c
  constructor
  · rintro ⟨t,ht⟩
    exact AList.mem_of_lookup (htable.trans (watched_iff.mpr ht))
  · intro hc
    obtain ⟨t,ht⟩ := AList.exists_lookup hc
    exact ⟨t,watched_iff.mp (htable.symm.trans ht)⟩

theorem load_counted {conf : GameServerConf} {past : List (MonitoredNode × Option MonitoredAct)}
    {s : MonitoredNode} (h : Run (monitoredLts conf) past s) :
    s.node.world.connectionCount = UInt32.ofNat (counted conf.basic.heartbeat past).ncard ∧
    s.node.world.stateInfo.currentConnection = UInt32.ofNat (shown conf.basic.heartbeat past).ncard ∧
    s.node.world.LoadOk conf := by
  induction h with
  | start hs =>
    obtain rfl := hs
    refine ⟨?_,?_,rfl,?_⟩
    · simp only [counted, Set.ncard_empty]
      rfl
    · simp only [shown, Set.ncard_empty]
      rfl
    · simp [MonitoredNode.start, World.init]
  | @next past s t a hr hst ih =>
    obtain ⟨hcount,hshown,hok⟩ := ih
    obtain ⟨hload,hkeep⟩ := load_step hst
    refine ⟨?_,?_,hload.ok hok⟩
    · cases a with
      | none => exact (hkeep (fun he => by cases he)).trans hcount
      | some a =>
        cases a with
        | finish =>
          simp only [counted]
          rw [lastTime_clients (hr.next hst)]
          exact count_finish hst
        | _ => exact (hkeep (fun he => by cases he)).trans hcount
    · unfold shown
      split
      · rename_i hrefresh
        exact (hload.refreshed hrefresh).trans hcount
      · rename_i hno
        exact (hload.kept hno).trans hshown

/-- After every run the node counts the clients whose last ping was in time at every visit up
to the end of the last pass, and what it tells the registry and its own log is that count as it
was when the world was last brought up to date, over the limit of the configuration. -/
theorem connections_counted {conf : GameServerConf} (hlimit : 0 < conf.basic.maxConnection.toNat)
    {past : List (MonitoredNode × Option MonitoredAct)} {s : MonitoredNode} (h : Run (monitoredLts conf) past s) :
    s.node.world.connectionCount = UInt32.ofNat (counted conf.basic.heartbeat past).ncard ∧
    s.node.world.stateInfo.currentConnection = UInt32.ofNat (shown conf.basic.heartbeat past).ncard ∧
    s.node.world.stateInfo.maxConnection = conf.basic.maxConnection ∧
    s.node.world.stateInfo.loadFactor * conf.basic.maxConnection.toNat =
      s.node.world.stateInfo.currentConnection.toNat := by
  obtain ⟨hcount,hshown,hok⟩ := load_counted h
  exact ⟨hcount,hshown,hok.maxConnection,hok.loadFactor_mul hlimit⟩

theorem connections_counted_pinged : UInt32.ofNat (counted GameServerConf.single.basic.heartbeat
    (Run.record (MonitoredNode.next GameServerConf.single.basic.heartbeat) some (MonitoredNode.start .single)
      pingedOnce)).ncard = 1 := by
  have hone : (pingedOnce.foldl (MonitoredNode.next GameServerConf.single.basic.heartbeat)
      (MonitoredNode.start .single)).node.world.connectionCount = 1 := by decide +kernel
  exact (connections_counted (by decide) (run_monitored allowed_pingedOnce)).1.symm.trans hone

end GameServer.Server
