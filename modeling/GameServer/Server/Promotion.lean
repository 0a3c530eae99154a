import GameServer.Server.Conservation
import GameServer.Server.MainHandle
import GameServer.Server.Sync

/-! # A promoted slave next to a master

A slave fills its maps from snapshots and never its index. After promotion it
is compared with a master that holds the same maps and the full index. The two
have the same maps as long as every write names a user the promoted node has in
its index, or no user of its maps.
-/
namespace GameServer.Server
open Common CommonServer Library

def World.withUsers (w : World) (users : HashMap UserId User) : World := { w with users := users }

/-- The other index knows what the index of the world knows, and perhaps more users
of the maps. -/
def World.IndexWithin (w : World) (users : HashMap UserId User) : Prop :=
  ∀ id, w.users.lookup id = users.lookup id ∨ (w.users.lookup id = none ∧ id ∈ mapIds w.maps)

/-- A user of the maps is in the index. -/
def World.Indexed (w : World) (id : UserId) : Prop := id ∈ mapIds w.maps → id ∈ w.userIds

/-- The operation looks up only users that are indexed. -/
def World.Serves (w : World) : WorldOp → Prop
  | .removeUser id => w.Indexed id
  | .removeUserByClientId clientId => ∀ id, w.clientMap.lookup clientId = some id → w.Indexed id
  | .setVelocity id _ => w.Indexed id
  | .aoe _ id radius _ => radius ≤ w.maxAoeRadius → w.Indexed id
  | _ => True

namespace World.IndexWithin
variable {w : World} {users : HashMap UserId User}

theorem lookup_eq (h : w.IndexWithin users) {id : UserId} (hi : w.Indexed id) :
    users.lookup id = w.users.lookup id := by
  rcases h id with he | ⟨hn,hm⟩
  · exact he.symm
  · obtain ⟨u,hu⟩ := hi hm
    rw [hn] at hu
    cases hu

theorem fresh (h : w.IndexWithin users) {id : UserId} (hf : w.Fresh id) : (w.withUsers users).Fresh id := by
  refine ⟨?_,hf.2⟩
  rcases h id with he | ⟨-,tag,u,hu⟩
  · exact he.symm.trans hf.1
  · rw [hf.2] at hu
    cases hu

theorem addUser (h : w.IndexWithin users) (user : User) :
    (w.addUser user).IndexWithin (users.insert user.id user) := by
  intro id
  rw [lookup_addUser, AList.lookup_insert_eq]
  by_cases hid : id = user.id
  · rw [if_pos hid, if_pos hid]
    exact Or.inl rfl
  · rw [if_neg hid, if_neg hid]
    refine (h id).imp_right ?_
    rintro ⟨hn,tag,u,hu⟩
    refine ⟨hn,tag,u,?_⟩
    rw [userAt_addUser, if_neg (fun hc => hid hc.2.1)]
    exact hu

theorem removeUser (h : w.IndexWithin users) {id : UserId} (hi : w.Indexed id) :
    ∃ users', ((w.withUsers users).removeUser id).state = (w.removeUser id).state.withUsers users' ∧
      (w.removeUser id).state.IndexWithin users' := by
  have hl : (w.withUsers users).users.lookup id = w.users.lookup id := h.lookup_eq hi
  rcases removeUser_cases w id with ⟨hn,he⟩ | ⟨v,hv,hm,he⟩ | ⟨v,hv,hm,he⟩
  · refine ⟨users,?_,?_⟩
    · rw [he, removeUser_of_not_stored]
      · rfl
      · rintro ⟨u,hu⟩
        rw [hl, hn] at hu
        cases hu
    · rw [he]
      exact h
  · rcases removeUser_cases (w.withUsers users) id with ⟨hn',-⟩ | ⟨v',hv',hm',he'⟩ | ⟨v',hv',hm',-⟩
    · rw [hl, hv] at hn'
      cases hn'
    · rw [he, he']
      exact ⟨users,rfl,h⟩
    · rw [hl, hv] at hv'
      cases hv'
      exact absurd hm' hm
  · rcases removeUser_cases (w.withUsers users) id with ⟨hn',-⟩ | ⟨v',hv',hm',-⟩ | ⟨v',hv',hm',he'⟩
    · rw [hl, hv] at hn'
      cases hn'
    · rw [hl, hv] at hv'
      cases hv'
      exact absurd hm hm'
    · rw [hl, hv] at hv'
      cases hv'
      rw [he, he']
      refine ⟨users.erase id,rfl,?_⟩
      intro i
      simp only [Outcome.ok_state, AList.lookup_erase_eq, mapIds, Set.mem_ofPred_eq, userAt_removeUser]
      by_cases hid : i = id
      · simp [hid]
      · simpa [hid, mapIds] using h i

theorem setVelocity (h : w.IndexWithin users) {id : UserId} (hi : w.Indexed id) (velocity : Velocity) :
    ∃ users', (w.withUsers users).setVelocity id velocity =
        (w.setVelocity id velocity).withUsers users' ∧
      (w.setVelocity id velocity).IndexWithin users' := by
  have hl : users.lookup id = w.users.lookup id := h.lookup_eq hi
  cases hv : w.users.lookup id with
  | none =>
    rw [hv] at hl
    refine ⟨users,?_,?_⟩
    · simp only [World.setVelocity, World.withUsers, hv, hl]
    · simp only [World.setVelocity, hv]
      exact h
  | some v =>
    rw [hv] at hl
    refine ⟨users.adjust id (fun u => { u with velocity := velocity }),?_,?_⟩
    · simp only [World.setVelocity, World.withUsers, hv, hl]
    · intro i
      rw [(ids_setVelocity w id velocity).1, lookup_setVelocity, AList.lookup_adjust]
      by_cases hid : i = id
      · subst hid
        simp [hl, hv]
      · simpa [hid] using h i

theorem credit (overflow : Overflow) (money : UInt64) (users : HashMap UserId User) (s : World) (u : User) :
    World.credit overflow money (s.withUsers users) u =
      (World.credit overflow money s u).map (fun s => s.withUsers users) := by
  simp only [World.credit, World.withUsers]
  cases s.maps.lookup (pos2mapTag s.areaLen u.position) with
  | none => rfl
  | some map =>
    dsimp only
    cases map.scenes.users.lookup u.id with
    | none => rfl
    | some u' =>
      dsimp only
      cases addMoney overflow u'.money money <;> rfl

theorem aoe (h : w.IndexWithin users) (overflow : Overflow)
    (order : HashMap UserId User → List User) {id : UserId} {radius : ℚ} (money : UInt64)
    (hi : radius ≤ w.maxAoeRadius → w.Indexed id) :
    ((w.withUsers users).aoe overflow order id radius money).state =
        (w.aoe overflow order id radius money).state.withUsers users ∧
      (w.aoe overflow order id radius money).state.IndexWithin users := by
  constructor
  · by_cases hr : radius > w.maxAoeRadius
    · have hr' : radius > (w.withUsers users).maxAoeRadius := hr
      simp only [World.aoe, if_pos hr, if_pos hr', Outcome.ok_state]
    · have hr' : ¬ radius > (w.withUsers users).maxAoeRadius := hr
      have hl : (w.withUsers users).users.lookup id = w.users.lookup id :=
        h.lookup_eq (hi (not_lt.mp hr))
      simp only [World.aoe, if_neg hr, if_neg hr', hl]
      cases w.users.lookup id with
      | none => rfl
      | some user =>
        have hsim := Outcome.forEach_map (World.IndexWithin.credit overflow money users) w
          (order (w.aoeTargets user id radius))
        exact congrArg Outcome.state hsim
  · obtain ⟨hm,-⟩ := ids_credited (credited_aoe overflow order w id radius money)
    intro i
    rw [hm, (credited_aoe overflow order w id radius money).users_eq]
    exact h i

theorem update (hs : (w.withUsers users).Settled) :
    (w.withUsers users).update.state = w.update.state.withUsers w.update.state.users := by
  have hall := hs.forEach_changeMap
  have hown : Outcome.forEach changeMap w.shiftMaps w.needChangeMapUser = Outcome.ok w.movedMaps := hall
  rw [hs.update_eq]
  simp only [World.update, hown]
  rfl

/-- One operation keeps two worlds with the same maps together. -/
theorem run (h : w.IndexWithin users) (hs : (w.withUsers users).Settled) (overflow : Overflow)
    {a : WorldOp} (ha : w.Serves a) :
    ∃ users', (a.run overflow (w.withUsers users)).state = (a.run overflow w).state.withUsers users' ∧
      (a.run overflow w).state.IndexWithin users' := by
  cases a with
  | addUser user => exact ⟨_,rfl,h.addUser user⟩
  | removeUser id => exact h.removeUser ha
  | login clientId userId => exact ⟨users,rfl,h⟩
  | logout clientId => exact ⟨users,rfl,h⟩
  | removeUserByClientId clientId =>
    have hc : { w with clientMap := w.clientMap.erase clientId }.IndexWithin users := h
    cases hl : w.clientMap.lookup clientId with
    | none =>
      refine ⟨users,?_,?_⟩
      · simp only [WorldOp.run, World.removeUserByClientId, World.withUsers, hl]
        rfl
      · simp only [WorldOp.run, World.removeUserByClientId, hl]
        exact hc
    | some id =>
      obtain ⟨users',he,hw⟩ := hc.removeUser (ha id hl)
      refine ⟨users',?_,?_⟩ <;> simp only [WorldOp.run, World.removeUserByClientId, World.withUsers, hl]
      · exact he
      · exact hw
  | setVelocity id velocity => exact h.setVelocity ha velocity
  | aoe order id radius money => exact ⟨users,h.aoe overflow order money ha⟩
  | update => exact ⟨_,IndexWithin.update hs,fun id => Or.inl rfl⟩

end World.IndexWithin

/-! ## What a slave holds before it is promoted -/

/-- The worlds a slave reaches by applying snapshots of a master's reachable worlds;
its own clients come and go. -/
inductive Synced (overflow : Overflow) (conf : GameServerConf) : World → Prop
  | init (conf' : GameServerConf) : Synced overflow conf (World.init conf')
  | clients {w : World} (clientMap : HashMap String UserId) :
      Synced overflow conf w → Synced overflow conf { w with clientMap := clientMap }
  | sync {w master : World} {dto : WorldSyncDTO} :
      Synced overflow conf w → (worldLts overflow conf).Reachable master →
      (WorldSyncDTO.fromMaps master.maps).SameData dto →
      Synced overflow conf (w.syncFromMaster dto).state

theorem users_syncFromMaster (w : World) (dto : WorldSyncDTO) :
    (w.syncFromMaster dto).state.users = w.users := by
  unfold World.syncFromMaster
  dsimp only
  split <;> rfl

theorem sameScenes_init (conf conf' : GameServerConf) :
    SameScenes (World.init conf).maps (World.init conf').maps := by
  intro tag
  rw [lookup_init_maps, lookup_init_maps]
  split
  · exact Option.Rel.some (AList.Same.refl _)
  · exact Option.Rel.none

/-- A synchronised slave has an empty index, and its maps are a master's. -/
theorem Synced.spec {overflow : Overflow} {conf : GameServerConf} {w : World}
    (h : Synced overflow conf w) :
    w.users = ∅ ∧ w.OnGrid ∧ ∃ master : World, master.Settled ∧ SameScenes master.maps w.maps := by
  induction h with
  | init conf' =>
    exact ⟨rfl,⟨rfl,layout_init conf'⟩,_,settled_init conf,sameScenes_init conf conf'⟩
  | clients clientMap _ ih => exact ⟨ih.1,⟨ih.2.1.area,ih.2.1.layout⟩,ih.2.2⟩
  | sync _ hm hd ih =>
    have hv := valid_of_reachable hm
    refine ⟨(users_syncFromMaster _ _).trans ih.1,ih.2.1.syncFromMaster _,_,hv.toSettled,?_⟩
    exact (syncFromMaster_eq hv.layout ih.2.1 hd).2

/-- With the index rebuilt from its maps, a synchronised slave is a settled world. -/
theorem Synced.settled {overflow : Overflow} {conf : GameServerConf} {w : World}
    (h : Synced overflow conf w) : (w.withUsers (collectUsers w.maps)).Settled := by
  obtain ⟨-,hg,master,hs,hsame⟩ := h.spec
  have hold : ∀ {tag id u}, userAt w.maps tag id = some u → userAt master.maps tag id = some u :=
    fun hu => (hsame.userAt_eq _ _).symm.trans hu
  refine ⟨hg.area,hg.layout,?_,?_,?_⟩
  · exact fun tag id u hu => hs.ids tag id u (hold hu)
  · exact fun tag id u hu => hs.placed tag id u (hold hu)
  · intro tag id u hu
    cases hl : (collectUsers w.maps).lookup id with
    | none =>
      have hn := lookup_collectUsers_none.mp hl tag
      rw [show userAt w.maps tag id = some u from hu] at hn
      cases hn
    | some v =>
      obtain ⟨tag',hv⟩ := lookup_collectUsers_some hl
      have he := hs.unique_user (hold hu) (hold hv)
      exact ⟨v,hl,by rw [he],by rw [he]⟩

theorem Synced.indexWithin {overflow : Overflow} {conf : GameServerConf} {w : World}
    (h : Synced overflow conf w) : w.IndexWithin (collectUsers w.maps) := by
  intro id
  rw [h.spec.1]
  cases hl : (collectUsers w.maps).lookup id with
  | none => exact Or.inl rfl
  | some u =>
    obtain ⟨tag,hu⟩ := lookup_collectUsers_some hl
    exact Or.inr ⟨rfl,tag,u,hu⟩

/-! ## Requests after the promotion -/

structure Twins where
  node : World
  master : World

inductive PromotedAct
  | request (env : Surroundings) (peerId : PeerIdentity) (msg : Message)
  | update

/-- The requests of the comparison; an added user has a fresh id. -/
def PromotedAct.Admissible (s : Twins) : PromotedAct → Prop
  | request env _ msg => (msg.operation = .AddUser ∨ msg.operation = .DelUser ∨
      msg.operation = .Aoe ∨ msg.operation = .SetVelocity) ∧
      ∀ a ∈ masterOps env s.node msg, a.AddsFresh s.node
  | update => True

/-- Both handle the same request, or both run one round of their update thread. -/
def PromotedAct.next (ctx masterCtx : ServerContext) (s : Twins) : PromotedAct → Twins
  | request env peerId msg =>
    { node := (handleMsgTask env ctx s.node peerId msg).world
      master := (handleMsgTask env masterCtx s.master peerId msg).world }
  | update =>
    { node := (worldUpdateRound ctx s.node).state
      master := (worldUpdateRound masterCtx s.master).state }

/-- Runs of a promoted slave that was started in the context `ctx`, beside a master. -/
def promotedLts (overflow : Overflow) (conf : GameServerConf) (ctx masterCtx : ServerContext) :
    Lts Twins PromotedAct where
  init s := Synced overflow conf s.node ∧ s.master = s.node.withUsers (collectUsers s.node.maps)
  step s a t := a.Admissible s ∧ t = a.next (convertSelfToMaster ctx) masterCtx s

/-- The request names no user that is in the node's maps and missing from its index. -/
def Twins.Served (s : Twins) : PromotedAct → Prop
  | .request env _ msg => ∀ a ∈ masterOps env s.node msg, s.node.Serves a
  | .update => True

def Twins.Together (s : Twins) : Prop :=
  ∃ users, s.master = s.node.withUsers users ∧ s.node.IndexWithin users ∧ s.master.Settled

theorem masterOps_of_write (env : Surroundings) (w : World) {msg : Message}
    (h : msg.operation = .AddUser ∨ msg.operation = .DelUser ∨ msg.operation = .Aoe ∨
      msg.operation = .SetVelocity) :
    (∀ w', masterOps env w' msg = masterOps env w msg) ∧
    (masterOps env w msg = [] ∨ ∃ a, masterOps env w msg = [a]) := by
  rcases h with hop | hop | hop | hop
  · simp only [masterOps, hop]
    cases msg.content.bind Content.asUser <;> simp
  · simp only [masterOps, hop]
    cases msg.userId <;> simp
  · simp only [masterOps, hop]
    cases msg.content.bind Content.asAoe <;> cases msg.userId <;> simp
  · simp only [masterOps, hop]
    cases msg.content.bind Content.asVelocity <;> cases msg.userId <;> simp

theorem together_op {w : World} {users : HashMap UserId User} (hi : w.IndexWithin users)
    (hs : (w.withUsers users).Settled) (overflow : Overflow) {a : WorldOp} (ha : w.Serves a)
    (hf : a.AddsFresh w) :
    Twins.Together { node := (a.run overflow w).state, master := (a.run overflow (w.withUsers users)).state } := by
  obtain ⟨users',he,hi'⟩ := hi.run hs overflow ha
  refine ⟨users',he,hi',?_⟩
  apply settled_run hs
  cases a with
  | addUser user => exact hi.fresh hf
  | _ => trivial

theorem together_step {overflow : Overflow} {conf : GameServerConf} {ctx masterCtx : ServerContext}
    (hm : masterCtx.nodeType = .Master) {s t : Twins} {a : PromotedAct} (h : s.Together)
    (hserved : s.Served a) (hst : (promotedLts overflow conf ctx masterCtx).step s a t) : t.Together := by
  obtain ⟨hadm,rfl⟩ := hst
  obtain ⟨users,he,hi,hs⟩ := h
  have hc : (convertSelfToMaster ctx).nodeType = .Master := rfl
  rw [he] at hs
  cases a with
  | request env peerId msg =>
    simp only [PromotedAct.next, handleMsgTask_world hc, handleMsgTask_world hm, he]
    obtain ⟨hsame,hone⟩ := masterOps_of_write env s.node hadm.1
    rw [hsame (s.node.withUsers users)]
    rcases hone with hnil | ⟨a,hone⟩
    · rw [hnil]
      exact ⟨users,rfl,hi,hs⟩
    · have hmem : a ∈ masterOps env s.node msg := by rw [hone]; exact List.mem_singleton_self a
      rw [hone]
      exact together_op hi hs env.overflow (hserved a hmem) (hadm.2 a hmem)
  | update =>
    simp only [PromotedAct.next, worldUpdateRound_of_master hc, worldUpdateRound_of_master hm, he]
    exact together_op hi hs overflow (a := .update) trivial trivial

/-- As long as every request names a user the promoted node has in its index, or no
user of its maps, its maps are those of a master. -/
theorem promoted_maps_eq_master {overflow : Overflow} {conf : GameServerConf}
    {ctx masterCtx : ServerContext} (hm : masterCtx.nodeType = .Master)
    {past : List (Twins × PromotedAct)} {s : Twins}
    (h : Run (promotedLts overflow conf ctx masterCtx) past s)
    (hserved : ∀ p ∈ past, p.1.Served p.2) : s.node.maps = s.master.maps := by
  have htog : s.Together := by
    apply h.invariant_of _ _ hserved
    · rintro s ⟨hsync,he⟩
      exact ⟨_,he,hsync.indexWithin,he ▸ hsync.settled⟩
    · exact fun s a t hs ha hst => together_step hm hs ha hst
  obtain ⟨users,he,-,-⟩ := htog
  rw [he]
  rfl

def World.twins (w : World) : Twins where
  node := w
  master := w.withUsers (collectUsers w.maps)

/-- What the promoted node and the master are after an action, for a slave started in `ctx`. -/
def PromotedAct.after (ctx masterCtx : ServerContext) (s : Twins) (a : PromotedAct) : Twins :=
  a.next (convertSelfToMaster ctx) masterCtx s

/-! ## Once the index is rebuilt -/

theorem serves_of_settled {w : World} (h : w.Settled) (a : WorldOp) : w.Serves a := by
  have hi : ∀ id, w.Indexed id := by
    rintro id ⟨tag,u,hu⟩
    obtain ⟨v,hv,-⟩ := h.agree tag id u hu
    exact ⟨v,hv⟩
  cases a with
  | removeUser id => exact hi id
  | removeUserByClientId clientId => exact fun id _ => hi id
  | setVelocity id velocity => exact hi id
  | aoe order id radius money => exact fun _ => hi id
  | _ => trivial

theorem settled_node_next {ctx masterCtx : ServerContext} {s : Twins} {a : PromotedAct} (h : s.node.Settled)
    (ha : a.Admissible s) : (a.next (convertSelfToMaster ctx) masterCtx s).node.Settled := by
  have hc : (convertSelfToMaster ctx).nodeType = .Master := rfl
  cases a with
  | request env peerId msg =>
    simp only [PromotedAct.next, handleMsgTask_world hc]
    rcases (masterOps_of_write env s.node ha.1).2 with hnil | ⟨a,hone⟩
    · rw [hnil]
      exact h
    · rw [hone]
      exact settled_run h (ha.2 a (by rw [hone]; exact List.mem_singleton_self a))
  | update =>
    simp only [PromotedAct.next, worldUpdateRound_of_master hc]
    exact settled_update h

theorem settled_node_update {ctx masterCtx : ServerContext} {s : Twins} (h : s.Together) :
    (PromotedAct.update.next (convertSelfToMaster ctx) masterCtx s).node.Settled := by
  have hc : (convertSelfToMaster ctx).nodeType = .Master := rfl
  obtain ⟨users,he,-,hs⟩ := h
  rw [he] at hs
  have hu := settled_update hs
  rw [World.IndexWithin.update hs] at hu
  simp only [PromotedAct.next, worldUpdateRound_of_master hc]
  exact hu

theorem served_of_settled {ctx masterCtx : ServerContext} {s : Twins} (h : s.node.Settled)
    {acts : List PromotedAct}
    (ha : Run.Allowed (PromotedAct.after ctx masterCtx) (fun s a => a.Admissible s) s acts) :
    ∀ p ∈ Run.record (PromotedAct.after ctx masterCtx) id s acts, p.1.Served p.2 := by
  induction acts generalizing s with
  | nil => exact fun p hp => by cases hp
  | cons a acts ih =>
    intro p hp
    rcases List.mem_append.mp hp with hp | hp
    · exact ih (settled_node_next h ha.1) ha.2 p hp
    · obtain rfl := List.mem_singleton.mp hp
      cases a with
      | request env peerId msg => exact fun b _ => serves_of_settled h b
      | update => trivial

theorem served_of_update_second {overflow : Overflow} {conf : GameServerConf} {ctx masterCtx : ServerContext}
    (hm : masterCtx.nodeType = .Master) {w : World} (h : Synced overflow conf w) {a : PromotedAct}
    (hs : w.twins.Served a) {acts : List PromotedAct}
    (ha : Run.Allowed (PromotedAct.after ctx masterCtx) (fun s a => a.Admissible s) w.twins
      (a :: .update :: acts)) :
    ∀ p ∈ Run.record (PromotedAct.after ctx masterCtx) id w.twins (a :: .update :: acts), p.1.Served p.2 := by
  have htog : w.twins.Together := ⟨_,rfl,h.indexWithin,h.settled⟩
  have hst : (promotedLts overflow conf ctx masterCtx).step w.twins a (PromotedAct.after ctx masterCtx w.twins a) :=
    ⟨ha.1,rfl⟩
  have hafter := together_step hm htog hs hst
  intro p hp
  rcases List.mem_append.mp hp with hp | hp
  · rcases List.mem_append.mp hp with hp | hp
    · exact served_of_settled (settled_node_update hafter) ha.2.2 p hp
    · obtain rfl := List.mem_singleton.mp hp
      trivial
  · obtain rfl := List.mem_singleton.mp hp
    exact hs

theorem run_promoted {overflow : Overflow} {conf : GameServerConf} {ctx masterCtx : ServerContext} {w : World}
    (h : Synced overflow conf w) {acts : List PromotedAct}
    (ha : Run.Allowed (PromotedAct.after ctx masterCtx) (fun s a => a.Admissible s) w.twins acts) :
    Run (promotedLts overflow conf ctx masterCtx) (Run.record (PromotedAct.after ctx masterCtx) id w.twins acts)
      (acts.foldl (PromotedAct.after ctx masterCtx) w.twins) :=
  Run.of_start (M := promotedLts overflow conf ctx masterCtx) (PromotedAct.after ctx masterCtx)
    (fun s a => a.Admissible s) id (fun _ _ hok => ⟨hok,rfl⟩) ⟨h,rfl⟩ ha

/-! ## Right after the promotion -/

theorem run_twins {overflow : Overflow} {conf : GameServerConf} (ctx masterCtx : ServerContext) {w : World}
    (h : Synced overflow conf w) {a : PromotedAct} (ha : a.Admissible w.twins) :
    Run (promotedLts overflow conf ctx masterCtx) [(w.twins,a)]
      (a.next (convertSelfToMaster ctx) masterCtx w.twins) :=
  Run.next (Run.start ⟨h,rfl⟩) ⟨ha,rfl⟩

/-- A `DelUser` before the first update leaves the user in the maps of the promoted node. -/
theorem delUser_diverges {overflow : Overflow} {conf : GameServerConf} {ctx masterCtx : ServerContext}
    (hc : ctx.nodeType = .Master) (hm : masterCtx.nodeType = .Master) {w : World}
    (h : Synced overflow conf w) {tag : MapTag} {id : UserId} {u : User}
    (hu : userAt w.maps tag id = some u) (env : Surroundings) (peerId : PeerIdentity) (key : String) :
    (handleMsgTask env ctx w.twins.node peerId (Message.delUser key id)).world.maps ≠
      (handleMsgTask env masterCtx w.twins.master peerId (Message.delUser key id)).world.maps := by
  have hops : ∀ w', masterOps env w' (Message.delUser key id) = [.removeUser id] := fun _ => rfl
  have hno : id ∉ w.userIds := by
    rintro ⟨v,hv⟩
    rw [h.spec.1] at hv
    cases hv
  have hstored : id ∈ mapIds w.twins.master.maps := ⟨tag,u,hu⟩
  rw [handleMsgTask_world hc, handleMsgTask_world hm, hops, hops]
  simp only [World.apply, List.foldl_cons, List.foldl_nil, WorldOp.run, World.twins,
    removeUser_of_not_stored hno, Outcome.ok_state]
  intro he
  have hgone := (removeUser_of_stored h.settled hstored).2.1 id
  have hin : id ∈ mapIds ((w.withUsers (collectUsers w.maps)).removeUser id).state.maps := by
    rw [← he]
    exact ⟨tag,u,hu⟩
  exact (hgone.mp hin).2 rfl

theorem admissible_delUser (s : Twins) (env : Surroundings) (peerId : PeerIdentity) (key : String)
    (id : UserId) : (PromotedAct.request env peerId (Message.delUser key id)).Admissible s := by
  refine ⟨Or.inr (Or.inl rfl),?_⟩
  intro a ha
  obtain rfl := List.mem_singleton.mp ha
  trivial

theorem run_delUser_diverges {overflow : Overflow} {conf : GameServerConf} (ctx : ServerContext)
    {masterCtx : ServerContext} (hm : masterCtx.nodeType = .Master) {w : World}
    (h : Synced overflow conf w) {tag : MapTag} {id : UserId} {u : User}
    (hu : userAt w.maps tag id = some u) (env : Surroundings) (peerId : PeerIdentity) (key : String) :
    ∃ past s, Run (promotedLts overflow conf ctx masterCtx) past s ∧ s.node.maps ≠ s.master.maps :=
  ⟨_,_,run_twins ctx masterCtx h (admissible_delUser w.twins env peerId key id),
    delUser_diverges rfl hm h hu env peerId key⟩

def player : User := User.randomWithoutVelocity 1 (Vector2.new 5 7)

def World.syncedFrom (w master : World) : World :=
  (w.syncFromMaster (WorldSyncDTO.fromMaps master.maps)).state

theorem synced_syncedFrom {overflow : Overflow} {conf : GameServerConf} {w master : World}
    (h : Synced overflow conf w) (hm : (worldLts overflow conf).Reachable master) :
    Synced overflow conf (w.syncedFrom master) :=
  Synced.sync h hm (WorldSyncDTO.SameData.refl _)

theorem onGrid_syncedFrom {w : World} (hg : w.OnGrid) (master : World) : (w.syncedFrom master).OnGrid :=
  hg.syncFromMaster _

theorem userAt_syncedFrom {w master : World} (hg : w.OnGrid) (hm : Layout master.maps) (tag : MapTag)
    (id : UserId) : userAt (w.syncedFrom master).maps tag id = userAt master.maps tag id :=
  (syncFromMaster_eq hm hg (WorldSyncDTO.SameData.refl _)).2.userAt_eq tag id

/-- The slave of `slave1.toml` after the snapshot of a master with that player. -/
def syncedSlave : World := (World.init .slave).syncedFrom ((World.init .master).addUser player)

theorem synced_syncedSlave : Synced .panics .master syncedSlave :=
  synced_syncedFrom (Synced.init .slave)
    (reachable_addUser_init .panics .master player (by decide))

theorem userAt_syncedFrom_player {w : World} (hg : w.OnGrid) :
    userAt (w.syncedFrom ((World.init .master).addUser player)).maps
      (pos2mapTag areaLength player.position) 1 = some player := by
  have hl : Layout ((World.init .master).addUser player).maps :=
    (settled_addUser (settled_init .master) (fresh_init .master _)).layout
  have hin : InWorld player.position := by decide
  have hn : ¬ Unmapped player.position := by decide
  rw [userAt_syncedFrom hg hl, userAt_addUser]
  apply if_pos
  exact ⟨rfl,rfl,((layout_init .master).keys _).mpr ((pos2mapTag_mem_iff hin).mpr hn)⟩

theorem userAt_syncedSlave :
    userAt syncedSlave.maps (pos2mapTag areaLength player.position) 1 = some player :=
  userAt_syncedFrom_player ⟨rfl,layout_init .slave⟩

def newcomer : User := User.randomWithoutVelocity 2 (Vector2.new 8 7)

/-- An `AddUser` before the first update of the promoted node, and writes of both players after it. -/
def promotedWrites : List PromotedAct :=
  [.request .plain "slave" (Message.addUser "slave" newcomer),.update,
    .request .plain "client" (Message.aoe "client" 1 10 5),
    .request .plain "client" (Message.setVelocity "client" 1 (Velocity.new (Vector2.new 1 0) 4)),
    .request .plain "slave" (Message.delUser "slave" 1),.update]

theorem fresh_syncedSlave : syncedSlave.Fresh newcomer.id := by
  have hl : Layout ((World.init .master).addUser player).maps :=
    (settled_addUser (settled_init .master) (fresh_init .master _)).layout
  refine ⟨by rw [synced_syncedSlave.spec.1]; rfl,fun tag => ?_⟩
  rw [syncedSlave, userAt_syncedFrom ⟨rfl,layout_init .slave⟩ hl, userAt_addUser]
  refine (if_neg ?_).trans ((fresh_init .master _).2 tag)
  rintro ⟨-,hid,-⟩
  exact absurd hid (by decide)

theorem allowed_promotedWrites (ctx masterCtx : ServerContext) {w : World} (h : w.Fresh newcomer.id) :
    Run.Allowed (PromotedAct.after ctx masterCtx) (fun s a => a.Admissible s) w.twins promotedWrites := by
  refine ⟨⟨Or.inl rfl,?_⟩,trivial,⟨Or.inr (Or.inr (Or.inl rfl)),?_⟩,⟨Or.inr (Or.inr (Or.inr rfl)),?_⟩,
    admissible_delUser _ _ _ _ _,trivial,trivial⟩
  · intro a ha
    obtain rfl := List.mem_singleton.mp ha
    exact h
  all_goals
    intro a ha
    obtain rfl := List.mem_singleton.mp ha
    trivial

theorem served_addUser (s : Twins) (env : Surroundings) (peerId : PeerIdentity) (key : String) (user : User) :
    s.Served (.request env peerId (Message.addUser key user)) := by
  intro a ha
  obtain rfl := List.mem_singleton.mp ha
  trivial

theorem promoted_maps_eq_master_writes : ∃ past s,
    Run (promotedLts .panics .master (.run .slave) (.run .master)) past s ∧
      past.map Prod.snd = promotedWrites.reverse ∧ s.node.maps = s.master.maps := by
  have hallowed := allowed_promotedWrites (.run .slave) (.run .master) fresh_syncedSlave
  have hrun := run_promoted synced_syncedSlave hallowed
  exact ⟨_,_,hrun,rfl,promoted_maps_eq_master rfl hrun
    (served_of_update_second rfl synced_syncedSlave (served_addUser _ _ _ _ _) hallowed)⟩

/-- The promoted node and the master after the player is deleted before any update. -/
theorem promoted_maps_ne_master_delUser :
    ∃ past s, Run (promotedLts .panics .master (.run .slave) (.run .master)) past s ∧
      s.node.maps ≠ s.master.maps :=
  run_delUser_diverges (.run .slave) rfl synced_syncedSlave userAt_syncedSlave .plain
    "slave" "127.0.0.1:5575"

end GameServer.Server
