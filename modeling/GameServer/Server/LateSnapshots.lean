import GameServer.Server.Conservation
import GameServer.Server.MainHandle
import Mathlib.Data.Finset.Filter

/-! # Snapshots that arrive after the promotion

The subscription of a slave spawns one task per snapshot, and each task applies
its snapshot whenever it gets the world lock. Nothing stops the subscription or
these tasks when the node is promoted, so a late one undoes accepted writes.
-/
namespace GameServer.Server
open Common CommonServer Library

/-- The node, the snapshots whose tasks wait for the world lock, and the ids added since
the promotion and not removed since. -/
structure SlaveNode where
  ctx : ServerContext
  world : World
  waiting : List WorldSyncDTO
  added : Finset UserId

inductive NodeAct
  | receive (dto : WorldSyncDTO)
  | apply (i : ℕ)
  | convert
  | request (env : Surroundings) (peerId : PeerIdentity) (msg : Message)
  | expire (clientId : String)
  | round

def World.liveAfter (overflow : Overflow) : World → Finset UserId → List WorldOp → Finset UserId
  | _, live, [] => live
  | w, live, a :: as => liveAfter overflow (a.run overflow w).state (a.live w live) as

def stillStored (maps : Maps) (ids : Finset UserId) : Finset UserId :=
  ids.filter (fun id => ((collectUsers maps).lookup id).isSome)

/-- One step of the node; `added` is kept from the promotion on. -/
def NodeAct.next (s : SlaveNode) : NodeAct → SlaveNode
  | receive dto => { s with waiting := s.waiting ++ [dto] }
  | apply i =>
    match s.waiting[i]? with
    | none => s
    | some dto =>
      { s with world := (s.world.syncFromMaster dto).state, waiting := s.waiting.eraseIdx i }
  | convert => { s with ctx := convertSelfToMaster s.ctx }
  | request env peerId msg =>
    { s with
      world := (handleMsgTask env s.ctx s.world peerId msg).world
      added := if s.ctx.nodeType = .Master then
          s.world.liveAfter env.overflow s.added (masterOps env s.world msg)
        else s.added }
  | expire clientId =>
    { s with
      world := (removeOfflineClient s.ctx s.world clientId).world
      added := if s.ctx.nodeType = .Master then
          (WorldOp.removeUserByClientId clientId).live s.world s.added
        else s.added }
  | round =>
    { s with
      world := (worldUpdateRound s.ctx s.world).state
      added := stillStored (worldUpdateRound s.ctx s.world).state.maps s.added }

def nodeLts (conf : GameServerConf) : Lts SlaveNode NodeAct where
  init s := conf.app.mode = .Cluster ∧ conf.node.nodeType = .Slave ∧
    s = { ctx := ServerContext.run conf, world := World.init conf, waiting := [], added := ∅ }
  step s a t := t = a.next s

/-- The promotion comes when no task waits, no snapshot comes after it, and the promoted
node adds users where there is a map. -/
def SlaveNode.Orderly (s : SlaveNode) : NodeAct → Prop
  | .receive _ => s.ctx.nodeType = .Slave
  | .convert => s.waiting = []
  | .request env _ msg => s.ctx.nodeType = .Master →
      ∀ user, WorldOp.addUser user ∈ masterOps env s.world msg →
        pos2mapTag areaLength user.position ∈ initTags
  | _ => True

/-- Nothing waits on a promoted node, and what was added there is in the maps. -/
structure SlaveNode.Kept (s : SlaveNode) : Prop where
  grid : s.world.OnGrid
  waiting : s.ctx.nodeType = .Master → s.waiting = []
  added : ∀ id ∈ s.added, id ∈ mapIds s.world.maps
  slave : s.ctx.nodeType = .Slave → s.added = ∅

/-! ## One operation -/

theorem mapIds_removeUser_of_ne {w : World} {i id : UserId} (hne : id ≠ i) (h : id ∈ mapIds w.maps) :
    id ∈ mapIds (w.removeUser i).state.maps := by
  obtain ⟨tag,u,hu⟩ := h
  refine ⟨tag,u,?_⟩
  rcases removeUser_cases w i with ⟨-,he⟩ | ⟨v,-,-,he⟩ | ⟨v,-,-,he⟩
  · rw [he]
    exact hu
  · rw [he]
    exact hu
  · rw [he, Outcome.ok_state, userAt_removeUser, if_neg (fun hc => hne hc.2)]
    exact hu

/-- Every id that counts as live stays in the maps, an update apart. -/
theorem live_in_maps (overflow : Overflow) {w : World} (hg : w.OnGrid) {live : Finset UserId}
    (h : ∀ id ∈ live, id ∈ mapIds w.maps) {a : WorldOp}
    (ha : ∀ user, a = .addUser user → pos2mapTag areaLength user.position ∈ initTags)
    (hu : a ≠ .update) : ∀ id ∈ a.live w live, id ∈ mapIds (a.run overflow w).state.maps := by
  intro id hid
  cases a with
  | addUser user =>
    have hin : pos2mapTag w.areaLen user.position ∈ w.maps := by
      rw [hg.area]
      exact (hg.layout.keys _).mpr (ha user rfl)
    by_cases he : id = user.id
    · exact ⟨_,user,(userAt_addUser w user _ id).trans (if_pos ⟨rfl,he,hin⟩)⟩
    · obtain ⟨tag,u,hold⟩ := h id (Finset.mem_of_mem_insert_of_ne hid he)
      exact ⟨tag,u,(userAt_addUser w user tag id).trans ((if_neg (fun hc => he hc.2.1)).trans hold)⟩
  | removeUser i =>
    obtain ⟨hne,hl⟩ := Finset.mem_erase.mp hid
    exact mapIds_removeUser_of_ne hne (h id hl)
  | login clientId userId => exact h id hid
  | logout clientId => exact h id hid
  | removeUserByClientId clientId =>
    simp only [WorldOp.live] at hid
    simp only [WorldOp.run, World.removeUserByClientId]
    cases hc : w.clientMap.lookup clientId with
    | none =>
      rw [hc] at hid
      exact h id hid
    | some i =>
      rw [hc] at hid
      obtain ⟨hne,hl⟩ := Finset.mem_erase.mp hid
      exact mapIds_removeUser_of_ne hne (h id hl)
  | setVelocity i velocity =>
    have hm := (ids_setVelocity w i velocity).1
    exact hm.symm ▸ h id hid
  | aoe order i radius money =>
    have hm := (ids_credited (credited_aoe overflow order w i radius money)).1
    exact hm.symm ▸ h id hid
  | update => exact absurd rfl hu

theorem liveAfter_in_maps {overflow : Overflow} {w : World} (hg : w.OnGrid) {live : Finset UserId}
    (h : ∀ id ∈ live, id ∈ mapIds w.maps) {ops : List WorldOp}
    (ha : ∀ user, WorldOp.addUser user ∈ ops → pos2mapTag areaLength user.position ∈ initTags)
    (hu : WorldOp.update ∉ ops) :
    ∀ id ∈ w.liveAfter overflow live ops, id ∈ mapIds (w.apply overflow ops).maps := by
  induction ops generalizing w live with
  | nil => exact h
  | cons a ops ih =>
    have hnow := live_in_maps overflow hg h
      (fun user he => ha user (he ▸ List.mem_cons_self)) (fun he => hu (he ▸ List.mem_cons_self))
    exact ih (hg.run overflow a) hnow (fun user hm => ha user (List.mem_cons_of_mem _ hm))
      (fun hm => hu (List.mem_cons_of_mem _ hm))

theorem update_not_mem_masterOps (env : Surroundings) (w : World) (msg : Message) :
    WorldOp.update ∉ masterOps env w msg := by
  simp only [masterOps]
  split
  · split <;> simp
  · simp
  · cases msg.content.bind Content.asUser <;> simp
  · simp
  · split <;> simp
  · split <;> simp
  · simp

theorem mem_stillStored {maps : Maps} {ids : Finset UserId} {id : UserId} :
    id ∈ stillStored maps ids ↔ id ∈ ids ∧ id ∈ mapIds maps := by
  have hiff : ((collectUsers maps).lookup id).isSome ↔ id ∈ mapIds maps := by
    constructor
    · intro h
      obtain ⟨u,hu⟩ := Option.isSome_iff_exists.mp h
      obtain ⟨tag,ht⟩ := lookup_collectUsers_some hu
      exact ⟨tag,u,ht⟩
    · rintro ⟨tag,u,hu⟩
      by_contra hn
      have hnone := Option.not_isSome_iff_eq_none.mp hn
      rw [lookup_collectUsers_none.mp hnone tag] at hu
      cases hu
  simp only [stillStored, Finset.mem_filter, hiff]

/-! ## One step of the node -/

/-- A slave has added nobody, so whatever maps it has hold them all. -/
theorem SlaveNode.Kept.added_of_slave {s : SlaveNode} (h : s.Kept) (hs : s.ctx.nodeType = .Slave)
    (maps : Maps) : ∀ id ∈ s.added, id ∈ mapIds maps := by
  intro id hid
  rw [h.slave hs] at hid
  cases hid

theorem kept_step {s : SlaveNode} (h : s.Kept) {a : NodeAct} (ha : s.Orderly a) : (a.next s).Kept := by
  cases a with
  | receive dto =>
    refine ⟨h.grid,?_,h.added,h.slave⟩
    intro hm
    have hsl : s.ctx.nodeType = .Slave := ha
    rw [show s.ctx.nodeType = .Master from hm] at hsl
    cases hsl
  | apply i =>
    cases hw : s.waiting[i]? with
    | none =>
      simp only [NodeAct.next, hw]
      exact h
    | some dto =>
      simp only [NodeAct.next, hw]
      have hsl : s.ctx.nodeType = .Slave := by
        cases hn : s.ctx.nodeType with
        | Slave => rfl
        | Master =>
          rw [h.waiting hn] at hw
          cases hw
      refine ⟨h.grid.syncFromMaster dto,?_,h.added_of_slave hsl _,h.slave⟩
      intro hm
      rw [show s.ctx.nodeType = .Master from hm] at hsl
      cases hsl
  | convert => exact ⟨h.grid,fun _ => ha,h.added,fun hs => by cases hs⟩
  | request env peerId msg =>
    simp only [NodeAct.next]
    cases hn : s.ctx.nodeType with
    | Master =>
      rw [handleMsgTask_world hn, if_pos rfl]
      refine ⟨onGrid_apply h.grid _,h.waiting,?_,fun hs => by rw [hn] at hs; cases hs⟩
      exact liveAfter_in_maps h.grid h.added (ha hn) (update_not_mem_masterOps env s.world msg)
    | Slave =>
      rw [handleMsgTask_world_of_slave hn, if_neg (by simp)]
      exact ⟨onGrid_apply h.grid _,h.waiting,h.added_of_slave hn _,h.slave⟩
  | expire clientId =>
    simp only [NodeAct.next]
    cases hn : s.ctx.nodeType with
    | Master =>
      rw [removeOfflineClient_world hn, if_pos rfl]
      have hrun := h.grid.run .panics (.removeUserByClientId clientId)
      refine ⟨hrun,h.waiting,?_,fun hs => by rw [hn] at hs; cases hs⟩
      exact live_in_maps .panics h.grid h.added (a := .removeUserByClientId clientId)
        (fun user he => by cases he) (fun he => by cases he)
    | Slave =>
      rw [if_neg (by simp)]
      refine ⟨?_,h.waiting,h.added_of_slave hn _,h.slave⟩
      rcases removeOfflineClient_world_of_slave hn s.world clientId with he | he
      · rw [he]
        exact h.grid
      · rw [he]
        exact ⟨h.grid.area,h.grid.layout⟩
  | round =>
    refine ⟨onGrid_worldUpdateRound h.grid s.ctx,h.waiting,?_,?_⟩
    · exact fun id hid => (mem_stillStored.mp hid).2
    · intro hs
      have hempty : s.added = ∅ := h.slave hs
      simp only [NodeAct.next, stillStored, hempty, Finset.filter_empty]

theorem kept_run {conf : GameServerConf} {past : List (SlaveNode × NodeAct)} {s : SlaveNode}
    (h : Run (nodeLts conf) past s) (hc : ∀ p ∈ past, p.1.Orderly p.2) : s.Kept := by
  apply h.invariant_of _ _ hc
  · rintro s ⟨-,hs,rfl⟩
    refine ⟨⟨rfl,layout_init conf⟩,fun _ => rfl,fun id hid => ?_,fun _ => rfl⟩
    cases hid
  · rintro s a t hk ha rfl
    exact kept_step hk ha

/-- If the promotion leaves no snapshot behind, no snapshot is applied after it and every
user added on the promoted node stays until a request, an expiry or an update of
the node removes it. -/
theorem promoted_node_keeps_users {conf : GameServerConf} {past : List (SlaveNode × NodeAct)}
    {s : SlaveNode} (h : Run (nodeLts conf) past s) (hc : ∀ p ∈ past, p.1.Orderly p.2) :
    (∀ p ∈ past, p.1.ctx.nodeType = .Master → ∀ i, p.2 = .apply i → p.1.waiting[i]? = none) ∧
    ∀ id ∈ s.added, id ∈ mapIds s.world.maps := by
  refine ⟨?_,(kept_run h hc).added⟩
  intro p hp hm i _
  obtain ⟨past',hrun,hsub⟩ := h.of_mem hp
  have hk := kept_run hrun (fun q hq => hc q (hsub q hq))
  rw [hk.waiting hm]
  rfl

/-! ## A late snapshot -/

def SlaveNode.start (conf : GameServerConf) : SlaveNode where
  ctx := ServerContext.run conf
  world := World.init conf
  waiting := []
  added := ∅

def SlaveNode.promoted (conf : GameServerConf) (waiting : List WorldSyncDTO) : SlaveNode :=
  { SlaveNode.start conf with ctx := convertSelfToMaster (ServerContext.run conf), waiting := waiting }

def SlaveNode.promotedWith (conf : GameServerConf) (waiting : List WorldSyncDTO) (user : User) : SlaveNode :=
  { SlaveNode.promoted conf waiting with
    world := (World.init conf).addUser user
    added := {user.id} }

theorem next_addUser (conf : GameServerConf) (waiting : List WorldSyncDTO) (env : Surroundings)
    (peerId : PeerIdentity) (key : String) (user : User) :
    SlaveNode.promotedWith conf waiting user =
      (NodeAct.request env peerId (Message.addUser key user)).next (SlaveNode.promoted conf waiting) := by
  have hm : (convertSelfToMaster (ServerContext.run conf)).nodeType = .Master := rfl
  simp only [NodeAct.next, handleMsgTask_world hm, SlaveNode.promotedWith, SlaveNode.promoted,
    SlaveNode.start, hm, if_true]
  rfl

theorem next_apply_zero (conf : GameServerConf) (dto : WorldSyncDTO) (user : User) :
    { SlaveNode.promotedWith conf [] user with
      world := (((World.init conf).addUser user).syncFromMaster dto).state } =
    (NodeAct.apply 0).next (SlaveNode.promotedWith conf [dto] user) := rfl

theorem run_apply_late {conf : GameServerConf} (hmode : conf.app.mode = .Cluster)
    (hslave : conf.node.nodeType = .Slave) (dto : WorldSyncDTO) (env : Surroundings)
    (peerId : PeerIdentity) (key : String) (user : User) :
    Run (nodeLts conf)
      [(SlaveNode.promotedWith conf [dto] user,.apply 0),
        (SlaveNode.promoted conf [dto],.request env peerId (Message.addUser key user)),
        ({ SlaveNode.start conf with waiting := [dto] },.convert),
        (SlaveNode.start conf,.receive dto)]
      { SlaveNode.promotedWith conf [] user with
        world := (((World.init conf).addUser user).syncFromMaster dto).state } := by
  have hstart : Run (nodeLts conf) [] (SlaveNode.start conf) := Run.start ⟨hmode,hslave,rfl⟩
  have hrecv : Run (nodeLts conf) [(SlaveNode.start conf,.receive dto)]
      { SlaveNode.start conf with waiting := [dto] } := Run.next hstart rfl
  have hconv : Run (nodeLts conf)
      [({ SlaveNode.start conf with waiting := [dto] },.convert),(SlaveNode.start conf,.receive dto)]
      (SlaveNode.promoted conf [dto]) := Run.next hrecv rfl
  exact Run.next (Run.next hconv (next_addUser conf [dto] env peerId key user))
    (next_apply_zero conf dto user)

/-- The snapshot of an empty world empties every map. -/
theorem not_stored_after_empty (conf : GameServerConf) {w : World} (hg : w.OnGrid) (id : UserId) :
    id ∉ mapIds (w.syncFromMaster (WorldSyncDTO.fromMaps (World.init conf).maps)).state.maps := by
  rintro ⟨tag,u,hu⟩
  have hsame := (syncFromMaster_eq (layout_init conf) hg (WorldSyncDTO.SameData.refl _)).2
  rw [hsame.userAt_eq tag id, userAt_init] at hu
  cases hu

theorem undone_of_not_stored {conf : GameServerConf} {dto : WorldSyncDTO} {user : User} {w : World}
    {past : List (SlaveNode × NodeAct)}
    (hrun : Run (nodeLts conf) ((SlaveNode.promotedWith conf [dto] user,.apply 0) :: past)
      { SlaveNode.promotedWith conf [] user with world := w })
    (hgone : user.id ∉ mapIds w.maps) : ∃ past s, Run (nodeLts conf) past s ∧
      (∃ p ∈ past, p.1.ctx.nodeType = .Master ∧ p.2 = .apply 0 ∧ p.1.waiting[0]? ≠ none) ∧
      user.id ∈ s.added ∧ user.id ∉ mapIds s.world.maps := by
  refine ⟨_,_,hrun,⟨_,List.mem_cons_self,rfl,rfl,?_⟩,?_,hgone⟩
  · simp [SlaveNode.promotedWith, SlaveNode.promoted]
  · exact Finset.mem_singleton_self user.id

/-- A snapshot taken before a user was added and applied after it: the user is gone. -/
theorem late_snapshot_undoes {conf : GameServerConf} (hmode : conf.app.mode = .Cluster)
    (hslave : conf.node.nodeType = .Slave) (env : Surroundings) (peerId : PeerIdentity) (key : String)
    (user : User) : ∃ past s, Run (nodeLts conf) past s ∧
      (∃ p ∈ past, p.1.ctx.nodeType = .Master ∧ p.2 = .apply 0 ∧ p.1.waiting[0]? ≠ none) ∧
      user.id ∈ s.added ∧ user.id ∉ mapIds s.world.maps := by
  have hg : ((World.init conf).addUser user).OnGrid :=
    ⟨rfl,(layout_init conf).adjust _ (fun _ => rfl)⟩
  exact undone_of_not_stored
    (run_apply_late hmode hslave (WorldSyncDTO.fromMaps (World.init conf).maps) env peerId key user)
    (not_stored_after_empty conf hg user.id)

def promotedAfterSnapshot : List NodeAct :=
  let master := (World.init .master).addUser (User.randomWithoutVelocity 2 (Vector2.new 8 7))
  [.receive (WorldSyncDTO.fromMaps master.maps),.apply 0,.convert,
    .request .plain "127.0.0.1:5575" (Message.addUser "slave" (User.randomWithoutVelocity 1 (Vector2.new 5 7)))]

theorem orderly_promotedAfterSnapshot :
    Run.Allowed (fun s a => NodeAct.next s a) SlaveNode.Orderly (SlaveNode.start .slave) promotedAfterSnapshot := by
  have hin : InWorld (Vector2.new 5 7) := by decide
  have hn : ¬ Unmapped (Vector2.new 5 7) := by decide
  refine ⟨rfl,trivial,rfl,?_,trivial⟩
  intro _ user hu
  obtain rfl := WorldOp.addUser.inj (List.mem_singleton.mp hu)
  exact (pos2mapTag_mem_iff hin).mpr hn

theorem promoted_node_keeps_first_user : ∃ past s, Run (nodeLts .slave) past s ∧
    past.map Prod.snd = promotedAfterSnapshot.reverse ∧ (1 : UserId) ∈ s.added ∧
    (1 : UserId) ∈ mapIds s.world.maps := by
  have hallowed := orderly_promotedAfterSnapshot
  have hrun := Run.of_start (M := nodeLts .slave) (fun s a => NodeAct.next s a) SlaveNode.Orderly id
    (fun _ _ _ => rfl) ⟨rfl,rfl,rfl⟩ hallowed
  have hadded : (1 : UserId) ∈ (promotedAfterSnapshot.foldl (fun s a => NodeAct.next s a)
      (SlaveNode.start .slave)).added := Finset.mem_insert_self 1 ∅
  have horderly := Run.forall_record (P := SlaveNode.Orderly) (fun _ _ h => h) hallowed
  exact ⟨_,_,hrun,rfl,hadded,(promoted_node_keeps_users hrun horderly).2 1 hadded⟩

/-- The node of `slave1.toml` receives an empty snapshot, is promoted, adds user 1 and
then applies the snapshot. -/
theorem promoted_node_loses_user :
    ∃ past s, Run (nodeLts .slave) past s ∧
      (∃ p ∈ past, p.1.ctx.nodeType = .Master ∧ p.2 = .apply 0 ∧ p.1.waiting[0]? ≠ none) ∧
      (1 : UserId) ∈ s.added ∧ (1 : UserId) ∉ mapIds s.world.maps :=
  late_snapshot_undoes rfl rfl .plain "slave" "127.0.0.1:5575"
    (User.randomWithoutVelocity 1 (Vector2.new 5 7))

end GameServer.Server
