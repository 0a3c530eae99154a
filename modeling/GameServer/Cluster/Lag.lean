import GameServer.Cluster.SnapshotOrder
import GameServer.Server.Snapshots

/-! # How far a slave lags behind

A slave answers queries from its own maps, and these are the maps of some tick of its
master. Here both nodes go on serving: the master takes requests and loses clients between
its ticks, and the slave answers, logs in and logs out while snapshots are on their way.
-/
namespace GameServer.Cluster
open Common Library Server

namespace SyncState

/-- Ticks whose snapshot the slave has not applied. -/
def inFlight (s : SyncState) : ℕ := s.senders.length + s.wire.length + s.appliers.length

/-- How many ticks old the slave's world is made of; none before the first snapshot. -/
def reached (s : SyncState) : ℕ :=
  match s.applied.getLast? with
  | none => 0
  | some n => n + 1

end SyncState

inductive PairAct
  | sync (a : SyncAct)
  | masterExpire (clientId : String)
  | slave (a : NodeTask)

namespace PairAct

def next (masterCtx slaveCtx : ServerContext) (s : SyncState) : PairAct → SyncState
  | .sync a => s.next masterCtx a
  | .masterExpire clientId => { s with master := (removeOfflineClient masterCtx s.master clientId).world }
  | .slave a => { s with slave := (NodeState.next slaveCtx { world := s.slave, used := ∅ } a).world }

def Admissible : PairAct → Prop
  | .slave (.request _ _ msg) => msg.operation ≠ .AddUser ∧ msg.operation ≠ .DelUser
  | _ => True

/-- A task runs before one of an older tick that waits in the same pool. -/
def Overtakes (s : SyncState) : PairAct → Prop
  | .sync a => ∃ older newer, older < newer ∧ s.Overtakes newer older a
  | _ => False

end PairAct

def pairLts (masterConf slaveConf : GameServerConf) : Lts SyncState PairAct where
  init s := (syncLts masterConf slaveConf).init s ∧ slaveConf.app.mode = .Cluster
  step s a t := a.Admissible ∧ t = a.next (ServerContext.run masterConf) (ServerContext.run slaveConf) s

/-- The world a tick of the master leaves; one that panics leaves none. -/
def leaves (ctx : ServerContext) (p : SyncState × PairAct) : Option World :=
  match p.2 with
  | .sync .tick =>
    let updated := worldUpdateRound ctx p.1.master
    match updated.panic with
    | some _ => none
    | none => some updated.state
  | _ => none

def ticked (ctx : ServerContext) (past : List (SyncState × PairAct)) : List World :=
  (past.filterMap (leaves ctx)).reverse

/-- The empty world the master starts with, and what each of its ticks has made of it. -/
def masterWorlds (conf : GameServerConf) (past : List (SyncState × PairAct)) : List World :=
  World.init conf :: ticked (ServerContext.run conf) past

/-! ## A slave writes no maps of its own -/

theorem sameScenes_of_userAt {maps maps' : Maps} (h : Layout maps) (h' : Layout maps')
    (hu : ∀ tag id, userAt maps' tag id = userAt maps tag id) : SameScenes maps maps' := by
  intro tag
  by_cases ht : tag ∈ initTags
  · obtain ⟨map,hm⟩ := AList.exists_lookup ((h.keys tag).mpr ht)
    obtain ⟨map',hm'⟩ := AList.exists_lookup ((h'.keys tag).mpr ht)
    rw [hm, hm']
    apply Option.Rel.some
    intro id
    have hat := hu tag id
    simp only [userAt, hm, hm', Option.bind_some] at hat
    exact hat.symm
  · have hnone : maps.lookup tag = none := AList.lookup_eq_none.mpr (fun hin => ht ((h.keys tag).mp hin))
    have hnone' : maps'.lookup tag = none := AList.lookup_eq_none.mpr (fun hin => ht ((h'.keys tag).mp hin))
    rw [hnone, hnone']
    exact Option.Rel.none

section
variable {ctx : ServerContext}

/-- What a client sends makes a slave of a cluster log in and log out and nothing else. -/
theorem spares_of_client (hc : ctx.mode = .Cluster) {a : NodeTask} (ha : (PairAct.slave a).Admissible)
    (w : World) : a.Spares ctx w := by
  cases a with
  | request env peerId msg =>
    intro op hop
    cases hm : msg.operation with
    | AddUser => exact absurd hm ha.1
    | DelUser => exact absurd hm ha.2
    | Login =>
      simp only [slaveOps, hm] at hop
      split at hop
      · cases hop
      · obtain rfl := List.mem_singleton.mp hop
        trivial
    | Logout =>
      simp only [slaveOps, hm, Option.mem_toList] at hop
      obtain ⟨-,-,rfl⟩ := Option.map_eq_some_iff.mp hop
      trivial
    | Aoe => simp only [slaveOps, hm, hc, if_true, List.not_mem_nil] at hop
    | SetVelocity => simp only [slaveOps, hm, hc, if_true, List.not_mem_nil] at hop
    | _ => simp only [slaveOps, masterOps, hm, List.not_mem_nil] at hop
  | expire clientId => trivial
  | countConnections count => trivial
  | round => exact Or.inl hc

end

/-! ## Where the slave's maps come from -/

section
variable {masterConf slaveConf : GameServerConf} {past : List (SyncState × PairAct)} {s : SyncState}

/-- The ticks so far are what was emitted, and the slave has the world of the one it has reached. -/
structure Lagging (masterConf : GameServerConf) (past : List (SyncState × PairAct)) (s : SyncState) : Prop where
  carried : s.Carried
  shown : (ticked (ServerContext.run masterConf) past).map World.maps = s.emitted
  area : ∀ w ∈ ticked (ServerContext.run masterConf) past, w.areaLen = areaLength
  first : s.applied = [] → SameScenes (World.init masterConf).maps s.slave.maps

theorem Lagging.quiet (h : Lagging masterConf past s) {t : SyncState} {a : PairAct} (hc : t.Carried)
    (ha : leaves (ServerContext.run masterConf) (s,a) = none) (he : t.emitted = s.emitted)
    (hf : t.applied = [] → SameScenes (World.init masterConf).maps t.slave.maps) :
    Lagging masterConf ((s,a) :: past) t := by
  have hticked : ticked (ServerContext.run masterConf) ((s,a) :: past) =
      ticked (ServerContext.run masterConf) past := by
    unfold ticked
    rw [List.filterMap_cons_none ha]
  refine ⟨hc,?_,?_,hf⟩
  · rw [hticked, he]
    exact h.shown
  · rw [hticked]
    exact h.area

theorem Lagging.tick (h : Lagging masterConf past s) (hm : masterConf.node.nodeType = .Master) :
    Lagging masterConf ((s,.sync .tick) :: past) (s.tick (ServerContext.run masterConf)) := by
  have hmaster : (ServerContext.run masterConf).nodeType = .Master := hm
  have hc := carried_next h.carried hmaster .tick
  simp only [SyncState.next] at hc
  cases hp : (worldUpdateRound (ServerContext.run masterConf) s.master).panic with
  | some e =>
    have ht : ticked (ServerContext.run masterConf) ((s,.sync .tick) :: past) =
        ticked (ServerContext.run masterConf) past := by
      unfold ticked
      rw [List.filterMap_cons_none (by simp only [leaves, hp])]
    refine ⟨hc,?_,?_,?_⟩
    · rw [ht, h.shown]
      simp only [SyncState.tick, hp]
    · rw [ht]
      exact h.area
    · simp only [SyncState.tick, hp]
      exact h.first
  | none =>
    have ht : ticked (ServerContext.run masterConf) ((s,.sync .tick) :: past) =
        ticked (ServerContext.run masterConf) past ++
          [(worldUpdateRound (ServerContext.run masterConf) s.master).state] := by
      unfold ticked
      rw [List.filterMap_cons_some (b := (worldUpdateRound (ServerContext.run masterConf) s.master).state)
        (by simp only [leaves, hp]), List.reverse_cons]
    refine ⟨hc,?_,?_,?_⟩
    · rw [ht, List.map_append, h.shown]
      simp only [SyncState.tick, hp, List.map_cons, List.map_nil]
    · rw [ht]
      intro w hw
      rcases List.mem_append.mp hw with hw | hw
      · exact h.area w hw
      · rw [List.mem_singleton.mp hw]
        exact (onGrid_worldUpdateRound h.carried.master _).area
    · simp only [SyncState.tick, hp]
      exact h.first

theorem Lagging.sync (h : Lagging masterConf past s) (hm : masterConf.node.nodeType = .Master) (a : SyncAct) :
    Lagging masterConf ((s,.sync a) :: past) (s.next (ServerContext.run masterConf) a) := by
  have hmaster : (ServerContext.run masterConf).nodeType = .Master := hm
  have hc := carried_next h.carried hmaster a
  cases a with
  | tick => exact h.tick hm
  | request env peerId msg => exact h.quiet hc rfl rfl h.first
  | publish k millis =>
    apply h.quiet hc rfl
    · simp only [SyncState.next]
      split <;> rfl
    · simp only [SyncState.next]
      split <;> exact h.first
  | deliver =>
    apply h.quiet hc rfl
    · simp only [SyncState.next]
      split <;> rfl
    · simp only [SyncState.next]
      split <;> exact h.first
  | apply k =>
    apply h.quiet hc rfl
    · simp only [SyncState.next]
      split <;> rfl
    · simp only [SyncState.next]
      split
      · exact h.first
      · intro hnil
        simp at hnil

theorem Lagging.masterExpire (h : Lagging masterConf past s) (hm : masterConf.node.nodeType = .Master)
    (clientId : String) : Lagging masterConf ((s,.masterExpire clientId) :: past)
      ((PairAct.masterExpire clientId).next (ServerContext.run masterConf) (ServerContext.run slaveConf) s) := by
  have hg : (s.master.removeUserByClientId clientId).state.OnGrid :=
    h.carried.master.run .panics (.removeUserByClientId clientId)
  have hmaster : (ServerContext.run masterConf).nodeType = .Master := hm
  rw [← removeOfflineClient_world hmaster] at hg
  have hc := h.carried
  exact h.quiet ⟨hg,hc.slave,hc.layout,hc.senders,hc.sent,hc.last⟩ rfl rfl h.first

theorem Lagging.slave (h : Lagging masterConf past s) (hs : slaveConf.node.nodeType = .Slave)
    (hmode : slaveConf.app.mode = .Cluster) {a : NodeTask} (ha : (PairAct.slave a).Admissible) :
    Lagging masterConf ((s,.slave a) :: past)
      ((PairAct.slave a).next (ServerContext.run masterConf) (ServerContext.run slaveConf) s) := by
  have hc := h.carried
  have hslave : (ServerContext.run slaveConf).nodeType = .Slave := hs
  have hcluster : (ServerContext.run slaveConf).mode = .Cluster := hmode
  have hg : (NodeState.next (ServerContext.run slaveConf) { world := s.slave, used := ∅ } a).world.OnGrid :=
    onGrid_next hslave (s := { world := s.slave, used := ∅ }) hc.slave a
  have hspares : a.Spares (ServerContext.run slaveConf) s.slave := spares_of_client hcluster ha s.slave
  have hsame : s.slave.SameUsers (NodeState.next (ServerContext.run slaveConf)
      { world := s.slave, used := ∅ } a).world :=
    sameUsers_next hslave (s := { world := s.slave, used := ∅ }) hspares
  have hkeep : ∀ {maps : Maps}, Layout maps → SameScenes maps s.slave.maps → SameScenes maps
      (NodeState.next (ServerContext.run slaveConf) { world := s.slave, used := ∅ } a).world.maps := by
    intro maps hl hm
    apply sameScenes_of_userAt hl hg.layout
    intro tag id
    rw [hsame.maps, hm.userAt_eq]
  refine h.quiet ⟨hc.master,hg,hc.layout,hc.senders,hc.sent,?_⟩ rfl rfl ?_
  · intro n hn
    obtain ⟨maps,he,hm⟩ := hc.last n hn
    exact ⟨maps,he,hkeep (hc.layout maps (List.mem_of_getElem? he)) hm⟩
  · intro hnil
    exact hkeep (layout_init masterConf) (h.first hnil)

theorem lagging_start (masterConf slaveConf : GameServerConf) :
    Lagging masterConf [] (SyncState.start masterConf slaveConf) := by
  refine ⟨⟨⟨rfl,layout_init _⟩,⟨rfl,layout_init _⟩,?_,?_,?_,?_⟩,rfl,?_,?_⟩
  · exact fun maps hmaps => by cases hmaps
  · exact fun task ht => by cases ht
  · exact fun snapshot hs => by cases hs
  · exact fun n hn => by cases hn
  · exact fun w hw => by cases hw
  · intro _
    apply sameScenes_of_userAt (layout_init _) (layout_init _)
    intro tag id
    simp only [userAt_init]

theorem roles_of_run (h : Run (pairLts masterConf slaveConf) past s) : masterConf.node.nodeType = .Master ∧
    slaveConf.node.nodeType = .Slave ∧ slaveConf.app.mode = .Cluster := by
  induction h with
  | start hs => exact ⟨hs.1.1,hs.1.2.2.1,hs.2⟩
  | next _ _ ih => exact ih

theorem lagging_of_run (h : Run (pairLts masterConf slaveConf) past s) : Lagging masterConf past s := by
  obtain ⟨hm,hs,hmode⟩ := roles_of_run h
  induction h with
  | start hstart =>
    obtain ⟨⟨-,-,-,rfl⟩,-⟩ := hstart
    exact lagging_start masterConf slaveConf
  | @next past s t a _ hst ih =>
    obtain ⟨ha,rfl⟩ := hst
    cases a with
    | sync a => exact ih.sync hm a
    | masterExpire clientId => exact ih.masterExpire hm clientId
    | slave a => exact ih.slave hs hmode ha

/-! ## Snapshots that come out in turn -/

theorem inTurn_next (h : s.line = List.range s.emitted.length) (ctx : ServerContext) {a : SyncAct}
    (hn : ¬ (PairAct.sync a).Overtakes s) :
    (s.next ctx a).line = List.range (s.next ctx a).emitted.length := by
  cases lineEffect s ctx a with
  | same hl he => rw [hl, he, h]
  | emits hl he => rw [hl, he, List.range_succ, h]
  | runs hadv he hover =>
    rw [he, ← h]
    obtain ⟨ahead,before,after,hold,hnew,hsub⟩ := hadv
    cases before with
    | nil => rw [hold, hnew]; rfl
    | cons older before =>
      exfalso
      -- what stood before the task is older and still waits
      have hsorted : s.line.Pairwise (· < ·) := by
        rw [h]
        exact List.pairwise_lt_range
      rw [hold] at hsorted
      have hrest := (List.pairwise_append.mp hsorted).2.1
      have hlt := (List.pairwise_append.mp hrest).2.2 older List.mem_cons_self _ List.mem_cons_self
      exact hn ⟨older,_,hlt,hover older (hsub List.mem_cons_self)⟩

theorem inTurn_of_run (h : Run (pairLts masterConf slaveConf) past s) (hn : ∀ p ∈ past, ¬ p.2.Overtakes p.1) :
    s.line = List.range s.emitted.length := by
  apply h.invariant_of (I := fun s => s.line = List.range s.emitted.length)
    (C := fun s a => ¬ a.Overtakes s) _ _ hn
  · rintro s ⟨⟨-,-,-,rfl⟩,-⟩
    rfl
  · rintro s a t hs hna ⟨-,rfl⟩
    cases a with
    | sync a => exact inTurn_next hs _ hna
    | masterExpire clientId => exact hs
    | slave a => exact hs

/-- In turn, the slave has applied the first ticks and the others are on their way. -/
theorem reached_of_inTurn (h : s.line = List.range s.emitted.length) :
    s.reached = s.applied.length ∧ s.reached + s.inFlight = s.emitted.length := by
  have hlen := congrArg List.length h
  simp only [SyncState.line, List.length_append, List.length_map, List.length_range] at hlen
  have hreached : s.reached = s.applied.length := by
    have hinOrder : s.applied = List.range s.applied.length := by
      have htake := congrArg (List.take s.applied.length) h
      rw [SyncState.line, List.take_left, List.take_range, min_eq_left (by omega)] at htake
      exact htake
    unfold SyncState.reached
    rw [hinOrder]
    cases s.applied.length with
    | zero => rfl
    | succ n => simp [List.range_succ]
  refine ⟨hreached,?_⟩
  rw [hreached]
  unfold SyncState.inFlight
  omega

theorem applied_mono {a : PairAct} {t : SyncState} (h : (pairLts masterConf slaveConf).step s a t) :
    s.applied.length ≤ t.applied.length := by
  obtain ⟨-,rfl⟩ := h
  cases a with
  | sync a =>
    cases a with
    | request env peerId msg => exact le_refl _
    | tick =>
      simp only [PairAct.next, SyncState.next, SyncState.tick]
      split <;> exact le_refl _
    | publish k millis =>
      simp only [PairAct.next, SyncState.next]
      split <;> exact le_refl _
    | deliver =>
      simp only [PairAct.next, SyncState.next]
      split <;> exact le_refl _
    | apply k =>
      simp only [PairAct.next, SyncState.next]
      split
      · exact le_refl _
      · rw [List.length_append]
        omega
  | masterExpire clientId => exact le_refl _
  | slave a => exact le_refl _

/-! ## What a client of the slave is told -/

theorem handleQuery_told {ctx : ServerContext} (ha : ctx.toClientSender.alive = true) (env : Surroundings)
    (w : World) (peerId : PeerIdentity) {msg : Message} (hq : msg.operation = .Query) {scope : RectScope}
    (hs : msg.content.bind Content.asScope = some scope) :
    (handleMsgTask env ctx w peerId msg).toClient = [(peerId,Message.queryResp (w.query scope))] := by
  simp only [handleMsgTask, hq, handleQuery, hs, Handled.reply, ha, if_true]

/-- The world whose users the slave has is the one its master had after the tick it has reached. -/
theorem slave_world (h : Lagging masterConf past s) :
    ∃ w, (masterWorlds masterConf past)[s.reached]? = some w ∧ w.areaLen = areaLength ∧
      SameScenes w.maps s.slave.maps := by
  cases hlast : s.applied.getLast? with
  | none =>
    refine ⟨World.init masterConf,?_,rfl,h.first (List.getLast?_eq_none_iff.mp hlast)⟩
    simp only [SyncState.reached, hlast, masterWorlds, List.getElem?_cons_zero]
  | some n =>
    obtain ⟨maps,hmaps,hsame⟩ := h.carried.last n hlast
    rw [← h.shown, List.getElem?_map] at hmaps
    obtain ⟨w,hw,rfl⟩ := Option.map_eq_some_iff.mp hmaps
    refine ⟨w,?_,h.area w (List.mem_of_getElem? hw),hsame⟩
    simp only [SyncState.reached, hlast, masterWorlds, List.getElem?_cons_succ]
    exact hw

/-- Whatever both nodes do meanwhile, a query on the slave is told the users its master would
have told after one of its ticks. If no snapshot has overtaken another, that is the tick before
those whose snapshots are still on their way, and no earlier query has been told a later one. -/
theorem slave_answers {conf : GameServerConf} (h : Run (pairLts conf slaveConf) past s) (env : Surroundings)
    (peerId : PeerIdentity) {msg : Message} (hq : msg.operation = .Query) {scope : RectScope}
    (hs : msg.content.bind Content.asScope = some scope) :
    (∃ w users, (masterWorlds conf past)[s.reached]? = some w ∧ users.Perm (w.query scope) ∧
      (handleMsgTask env (ServerContext.run slaveConf) s.slave peerId msg).toClient =
        [(peerId,Message.queryResp users)]) ∧
    ((∀ p ∈ past, ¬ p.2.Overtakes p.1) → s.reached + s.inFlight + 1 = (masterWorlds conf past).length ∧
      ∀ p ∈ past, p.1.reached ≤ s.reached) := by
  have hlag := lagging_of_run h
  refine ⟨?_,?_⟩
  · obtain ⟨w,hw,harea,hsame⟩ := slave_world hlag
    refine ⟨w,s.slave.query scope,hw,?_,handleQuery_told rfl env s.slave peerId hq hs⟩
    exact query_perm (hlag.carried.slave.area.trans harea.symm) hsame scope
  · intro hn
    obtain ⟨hreached,hflight⟩ := reached_of_inTurn (inTurn_of_run h hn)
    refine ⟨?_,?_⟩
    · rw [hflight, ← hlag.shown]
      simp only [masterWorlds, List.length_map, List.length_cons]
    · intro p hp
      obtain ⟨later,earlier,rfl⟩ := List.append_of_mem hp
      have hbefore := inTurn_of_run h.before (fun q hq => hn q (by simp [hq]))
      rw [(reached_of_inTurn hbefore).1, hreached]
      have hstays := h.stays (I := fun _ => True) (J := fun t => p.1.applied.length ≤ t.applied.length)
        (fun _ _ => trivial) (fun _ _ _ _ _ => trivial)
        (fun s a t _ hs hst => hs.trans (applied_mono hst)) (le_refl _)
      exact hstays.1

end

/-- The slave applies the first of two ticks while a client logs in. -/
def firstOfTwo : List PairAct :=
  [.sync .tick,.slave (.request .plain "peer" (Message.login "client")),.sync (.publish 0 0),.sync .deliver,
    .sync .tick,.sync (.apply 0)]

def applyFirst : SyncState :=
  firstOfTwo.foldl (PairAct.next (ServerContext.run .master) (ServerContext.run .slave))
    (SyncState.start .master .slave)

def fullScope : RectScope where
  leftUp := Vector2.new (-1000000) 1000000
  rightDown := Vector2.new 1000000 (-1000000)

theorem run_firstOfTwo : ∃ past, Run (pairLts .master .slave) past applyFirst := by
  have hstart : (pairLts .master .slave).init (SyncState.start .master .slave) := ⟨⟨rfl,rfl,rfl,rfl⟩,rfl⟩
  have hallowed : Run.Allowed (PairAct.next (ServerContext.run .master) (ServerContext.run .slave))
      (fun _ a => a.Admissible) (SyncState.start .master .slave) firstOfTwo :=
    ⟨trivial,⟨by decide,by decide⟩,trivial,trivial,trivial,trivial,trivial⟩
  have hstep : ∀ s a, PairAct.Admissible a → (pairLts .master .slave).step s (id a)
      (a.next (ServerContext.run .master) (ServerContext.run .slave) s) := fun _ _ ha => ⟨ha,rfl⟩
  exact ⟨_,Run.of_start _ _ id hstep hstart hallowed⟩

theorem slave_answers_firstOfTwo : ∃ past w users, Run (pairLts .master .slave) past applyFirst ∧
    (masterWorlds .master past)[1]? = some w ∧ users.Perm (w.query fullScope) ∧
    (handleMsgTask .plain (ServerContext.run .slave) applyFirst.slave "peer"
      (Message.query "client" fullScope)).toClient = [("peer",Message.queryResp users)] := by
  obtain ⟨past,h⟩ := run_firstOfTwo
  have hreached : applyFirst.reached = 1 := by decide +kernel
  obtain ⟨⟨w,users,hw,hp,htold⟩,-⟩ := slave_answers h .plain "peer" (show
    (Message.query "client" fullScope).operation = .Query from rfl) rfl
  rw [hreached] at hw
  exact ⟨past,w,users,h,hw,hp,htold⟩

end GameServer.Cluster
