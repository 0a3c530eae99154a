import GameServer.Server.Hits
import GameServer.Server.Logout
import GameServer.Server.Promotion
import GameServer.Server.SingleNode

/-! # Who writes the users of a slave

A slave is to take its users from the snapshots of its master and from nowhere else. Its
handlers test the role at every operation in another way: `AddUser` and `DelUser` log an error
and go on, so they write the world of a slave unless there is nothing for them to write.
-/
namespace GameServer.Server
open Common CommonServer Library

/-- The scenes and the index of the second world hold the users of the first. -/
structure World.SameUsers (w v : World) : Prop where
  maps : ∀ tag id, userAt v.maps tag id = userAt w.maps tag id
  users : ∀ id, v.users.lookup id = w.users.lookup id

def World.Holds (w : World) (user : User) : Prop :=
  w.users.lookup user.id = some user ∧ (pos2mapTag w.areaLen user.position ∈ w.maps →
    userAt w.maps (pos2mapTag w.areaLen user.position) user.id = some user)

def World.CanRemove (w : World) (id : UserId) : Prop :=
  ∃ u, w.users.lookup id = some u ∧ pos2mapTag w.areaLen u.position ∈ w.maps

/-- Both copies `set_velocity` writes have that velocity already. -/
def World.Heads (w : World) (id : UserId) (velocity : Velocity) : Prop :=
  ∀ u, w.users.lookup id = some u → u.velocity = velocity ∧
    ∀ v, userAt w.maps (pos2mapTag w.areaLen u.position) id = some v → v.velocity = velocity

/-- Nobody moves, and the index is what a tick would make of the scenes. -/
structure World.AtRest (w : World) : Prop where
  still : ∀ tag id u, userAt w.maps tag id = some u → u.shift w.tickTime = u
  indexed : ∀ id, (collectUsers w.maps).lookup id = w.users.lookup id

/-- The operation has nothing to write on the users; read off before it is carried out. -/
def WorldOp.Spares (w : World) : WorldOp → Prop
  | .addUser user => w.Holds user
  | .removeUser userId => ¬ w.CanRemove userId
  | .login _ _ => True
  | .logout _ => True
  | .removeUserByClientId clientId => ∀ id, w.clientMap.lookup clientId = some id → ¬ w.CanRemove id
  | .setVelocity id velocity => w.Heads id velocity
  | .aoe order id radius money => money = 0 ∨ radius > w.maxAoeRadius ∨
      ∀ user, w.users.lookup id = some user → order (w.aoeTargets user id radius) = []
  | .update => w.AtRest

namespace World.SameUsers
variable {w v x : World}

theorem refl (w : World) : w.SameUsers w := ⟨fun _ _ => rfl,fun _ => rfl⟩

theorem trans (h : w.SameUsers v) (h' : v.SameUsers x) : w.SameUsers x where
  maps tag id := (h'.maps tag id).trans (h.maps tag id)
  users id := (h'.users id).trans (h.users id)

theorem symm (h : w.SameUsers v) : v.SameUsers w where
  maps tag id := (h.maps tag id).symm
  users id := (h.users id).symm

theorem clientMap (w : World) (clientMap : HashMap String UserId) :
    w.SameUsers { w with clientMap := clientMap } := ⟨fun _ _ => rfl,fun _ => rfl⟩

theorem of_same (h : w.Same v) : w.SameUsers v where
  maps tag id := h.userAt_eq tag id
  users id := (h.users id).symm

end World.SameUsers

/-! ## One operation -/

section
variable {w : World}

theorem sameUsers_addUser_iff (user : User) : w.SameUsers (w.addUser user) ↔ w.Holds user := by
  constructor
  · intro h
    have hu := h.users user.id
    rw [lookup_addUser, if_pos rfl] at hu
    refine ⟨hu.symm,fun hm => ?_⟩
    have hat := h.maps (pos2mapTag w.areaLen user.position) user.id
    rw [userAt_addUser, if_pos ⟨rfl,rfl,hm⟩] at hat
    exact hat.symm
  · rintro ⟨hu,hat⟩
    refine ⟨?_,?_⟩
    · intro tag id
      rw [userAt_addUser]
      split
      · rename_i hc
        obtain ⟨rfl,rfl,hm⟩ := hc
        exact (hat hm).symm
      · rfl
    · intro id
      rw [lookup_addUser]
      split
      · rename_i hc
        rw [hc, hu]
      · rfl

theorem sameUsers_removeUser_iff (userId : UserId) :
    w.SameUsers (w.removeUser userId).state ↔ ¬ w.CanRemove userId := by
  rcases removeUser_cases w userId with ⟨hl,he⟩ | ⟨v,hv,hm,he⟩ | ⟨v,hv,hm,he⟩
  · rw [he]
    refine ⟨?_,fun _ => World.SameUsers.refl w⟩
    rintro - ⟨u,hu,-⟩
    rw [hl] at hu
    cases hu
  · rw [he]
    refine ⟨?_,fun _ => World.SameUsers.refl w⟩
    rintro - ⟨u,hu,hin⟩
    rw [hv] at hu
    obtain rfl := Option.some.inj hu
    exact hm hin
  · rw [he]
    refine ⟨?_,fun hn => absurd ⟨v,hv,hm⟩ hn⟩
    intro h
    have hu := h.users userId
    rw [hv, Outcome.ok_state, AList.lookup_erase] at hu
    cases hu

theorem sameUsers_removeUserByClientId_iff (clientId : String) :
    w.SameUsers (w.removeUserByClientId clientId).state ↔
      ∀ id, w.clientMap.lookup clientId = some id → ¬ w.CanRemove id := by
  cases hid : w.clientMap.lookup clientId with
  | none =>
    rw [removeUserByClientId_of_none hid]
    refine ⟨fun _ id h => ?_,fun _ => World.SameUsers.clientMap w _⟩
    cases h
  | some id =>
    have hiff := sameUsers_removeUser_iff (w := { w with clientMap := w.clientMap.erase clientId }) id
    have hc := World.SameUsers.clientMap w (w.clientMap.erase clientId)
    rw [removeUserByClientId_of_some hid]
    constructor
    · rintro h id' hid'
      obtain rfl := Option.some.inj hid'
      exact hiff.mp (hc.symm.trans h)
    · exact fun hn => hc.trans (hiff.mpr (hn id rfl))

theorem map_velocity_eq_iff (velocity : Velocity) (o : Option User) :
    o.map (fun u => { u with velocity := velocity }) = o ↔ ∀ u, o = some u → u.velocity = velocity := by
  cases o with
  | none => simp
  | some u =>
    rcases u with ⟨i,position,velocity',money⟩
    simp [eq_comm]

theorem sameUsers_setVelocity_iff (id : UserId) (velocity : Velocity) :
    w.SameUsers (w.setVelocity id velocity) ↔ w.Heads id velocity := by
  cases hu : w.users.lookup id with
  | none =>
    have he : w.setVelocity id velocity = w := by simp only [World.setVelocity, hu]
    rw [he]
    refine ⟨fun _ u h => ?_,fun _ => World.SameUsers.refl w⟩
    rw [hu] at h
    cases h
  | some u =>
    have he : w.setVelocity id velocity = { w with
        users := w.users.adjust id (fun u => { u with velocity := velocity })
        maps := w.maps.adjust (pos2mapTag w.areaLen u.position)
          (Map.adjustUser id (fun u => { u with velocity := velocity })) } := by
      simp only [World.setVelocity, hu]
    rw [he]
    constructor
    · intro h u' hu'
      obtain rfl : u = u' := Option.some.inj (hu.symm.trans hu')
      have hindex := h.users id
      have hscene := h.maps (pos2mapTag w.areaLen u.position) id
      rw [AList.lookup_adjust, if_pos rfl] at hindex
      rw [userAt_adjustUser, if_pos ⟨rfl,rfl⟩] at hscene
      exact ⟨(map_velocity_eq_iff velocity _).mp hindex u hu,(map_velocity_eq_iff velocity _).mp hscene⟩
    · intro h
      obtain ⟨hv,hscene⟩ := h u hu
      refine ⟨?_,?_⟩
      · intro tag i
        rw [userAt_adjustUser]
        split
        · rename_i hc
          obtain ⟨rfl,rfl⟩ := hc
          exact (map_velocity_eq_iff velocity _).mpr hscene
        · rfl
      · intro i
        rw [AList.lookup_adjust]
        split
        · rename_i hc
          rw [hc, hu, Option.map_some, ← hv]
        · rfl

/-- Nothing added is nothing written. -/
theorem sameUsers_credit_zero (overflow : Overflow) (w : World) (user : User) :
    w.SameUsers (World.credit overflow 0 w user).state := by
  rcases credit_cases overflow 0 w user with ⟨-,e,-,he⟩ | ⟨u,-,-,he⟩ | ⟨u,total,hu,ha,he⟩
  · rw [he]
    exact World.SameUsers.refl w
  · rw [he]
    exact World.SameUsers.refl w
  · have hfits : addMoney overflow u.money 0 = some (u.money + 0) :=
      addMoney_of_fits (Or.inr (by simpa using u.money.toNat_lt))
    rw [hfits] at ha
    obtain rfl := Option.some.inj ha
    rw [he]
    refine ⟨?_,fun _ => rfl⟩
    intro tag id
    rw [Outcome.ok_state, userAt_adjustUser]
    split
    · rename_i hc
      obtain ⟨rfl,rfl⟩ := hc
      rw [hu, Option.map_some, UInt64.add_zero]
    · rfl

theorem sameUsers_aoe {overflow : Overflow} {order : HashMap UserId User → List User} {id : UserId}
    {radius : ℚ} {money : UInt64} (h : (WorldOp.aoe order id radius money).Spares w) :
    w.SameUsers (w.aoe overflow order id radius money).state := by
  unfold World.aoe
  split
  · exact World.SameUsers.refl w
  · rename_i hr
    cases hu : w.users.lookup id with
    | none => exact World.SameUsers.refl w
    | some user =>
      rcases h with rfl | hlarge | hnone
      · apply Outcome.forEach_state (World.SameUsers.refl w)
        exact fun s u _ hs => hs.trans (sameUsers_credit_zero overflow s u)
      · exact absurd hlarge hr
      · dsimp only
        rw [hnone user hu]
        exact World.SameUsers.refl w

theorem sameUsers_update (h : w.AtRest) : w.SameUsers w.update.state := by
  have hshift : w.shiftMaps = w.maps := by
    apply AList.mapVal_eq_self
    intro tag map hmap
    have husers : map.scenes.users.mapVal (fun _ u => u.shift w.tickTime) = map.scenes.users := by
      apply AList.mapVal_eq_self
      intro id u hu
      apply h.still tag id u
      unfold userAt
      rw [hmap]
      exact hu
    rw [husers]
  have hnone : w.needChangeMapUser = [] := by
    apply List.eq_nil_iff_forall_not_mem.mpr
    intro c hc
    obtain ⟨tag,id,u,hu,hn⟩ := mem_needChangeMapUser.mp hc
    obtain ⟨rfl,hne⟩ := needChange_some hn
    apply hne
    dsimp only
    rw [h.still tag id u hu]
  unfold World.update
  rw [hshift, hnone]
  exact ⟨fun _ _ => rfl,h.indexed⟩

/-- An operation with nothing to write on the users writes nothing on them. -/
theorem sameUsers_run (overflow : Overflow) {op : WorldOp} (h : op.Spares w) :
    w.SameUsers (op.run overflow w).state := by
  cases op with
  | addUser user => exact (sameUsers_addUser_iff user).mpr h
  | removeUser userId => exact (sameUsers_removeUser_iff userId).mpr h
  | login clientId userId => exact World.SameUsers.clientMap w _
  | logout clientId => exact World.SameUsers.clientMap w _
  | removeUserByClientId clientId => exact (sameUsers_removeUserByClientId_iff clientId).mpr h
  | setVelocity id velocity => exact (sameUsers_setVelocity_iff id velocity).mpr h
  | aoe order id radius money => exact sameUsers_aoe h
  | update => exact sameUsers_update h

end

/-! ## One task of a slave -/

def NodeTask.Spares (ctx : ServerContext) (w : World) : NodeTask → Prop
  | .request env _ msg => ∀ op ∈ slaveOps env ctx w msg, op.Spares w
  | .expire _ => True
  | .countConnections _ => True
  | .round => ctx.mode = .Cluster ∨ w.AtRest

section
variable {ctx : ServerContext}

theorem slaveOps_cases (env : Surroundings) (ctx : ServerContext) (w : World) (msg : Message) :
    slaveOps env ctx w msg = [] ∨ ∃ op, slaveOps env ctx w msg = [op] := by
  have htoList : ∀ o : Option WorldOp, o.toList = [] ∨ ∃ op, o.toList = [op] := by
    intro o
    cases o with
    | none => exact Or.inl rfl
    | some op => exact Or.inr ⟨op,rfl⟩
  cases hop : msg.operation with
  | Login =>
    simp only [slaveOps, hop]
    split
    · exact Or.inl rfl
    · exact Or.inr ⟨_,rfl⟩
  | Logout =>
    simp only [slaveOps, hop]
    exact htoList _
  | AddUser =>
    simp only [slaveOps, masterOps, hop]
    exact htoList _
  | DelUser =>
    simp only [slaveOps, masterOps, hop]
    exact htoList _
  | Aoe =>
    simp only [slaveOps, masterOps, hop]
    split
    · exact Or.inl rfl
    · split
      · exact Or.inr ⟨_,rfl⟩
      · exact Or.inl rfl
  | SetVelocity =>
    simp only [slaveOps, masterOps, hop]
    split
    · exact Or.inl rfl
    · split
      · exact Or.inr ⟨_,rfl⟩
      · exact Or.inl rfl
  | _ => exact Or.inl (by simp only [slaveOps, masterOps, hop])

/-- In a cluster a slave hands on what a player does, so only these operations are left. -/
theorem slaveOps_of_cluster (hc : ctx.mode = .Cluster) {env : Surroundings} {w : World} {msg : Message}
    {op : WorldOp} (h : op ∈ slaveOps env ctx w msg) :
    (∃ clientId userId, op = .login clientId userId) ∨ (∃ clientId, op = .logout clientId) ∨
      (∃ user, op = .addUser user) ∨ ∃ userId, op = .removeUser userId := by
  cases hop : msg.operation with
  | Login =>
    simp only [slaveOps, hop] at h
    split at h
    · cases h
    · exact Or.inl ⟨_,_,List.mem_singleton.mp h⟩
  | Logout =>
    simp only [slaveOps, hop, Option.mem_toList] at h
    obtain ⟨-,-,rfl⟩ := Option.map_eq_some_iff.mp h
    exact Or.inr (Or.inl ⟨_,rfl⟩)
  | AddUser =>
    simp only [slaveOps, masterOps, hop, Option.mem_toList] at h
    obtain ⟨user,-,rfl⟩ := Option.map_eq_some_iff.mp h
    exact Or.inr (Or.inr (Or.inl ⟨user,rfl⟩))
  | DelUser =>
    simp only [slaveOps, masterOps, hop, Option.mem_toList] at h
    obtain ⟨userId,-,rfl⟩ := Option.map_eq_some_iff.mp h
    exact Or.inr (Or.inr (Or.inr ⟨userId,rfl⟩))
  | Aoe => simp only [slaveOps, hop, hc, if_true, List.not_mem_nil] at h
  | SetVelocity => simp only [slaveOps, hop, hc, if_true, List.not_mem_nil] at h
  | _ => simp only [slaveOps, masterOps, hop, List.not_mem_nil] at h

theorem sameUsers_expire (hs : ctx.nodeType = .Slave) (w : World) (clientId : String) :
    w.SameUsers (removeOfflineClient ctx w clientId).world := by
  rcases removeOfflineClient_world_of_slave hs w clientId with he | he
  · rw [he]
    exact World.SameUsers.refl w
  · rw [he]
    exact World.SameUsers.clientMap w _

theorem sameUsers_next (hs : ctx.nodeType = .Slave) {s : NodeState} {a : NodeTask}
    (h : a.Spares ctx s.world) : s.world.SameUsers (s.next ctx a).world := by
  cases a with
  | request env peerId msg =>
    have he := handleMsgTask_world_of_slave hs env s.world peerId msg
    simp only [NodeState.next]
    rw [he]
    rcases slaveOps_cases env ctx s.world msg with hops | ⟨op,hops⟩
    · rw [hops]
      exact World.SameUsers.refl s.world
    · have hop : op.Spares s.world := h op (by rw [hops]; exact List.mem_singleton_self op)
      rw [hops]
      exact sameUsers_run env.overflow hop
  | expire clientId => exact sameUsers_expire hs s.world clientId
  | countConnections count => exact ⟨fun _ _ => rfl,fun _ => rfl⟩
  | round =>
    simp only [NodeState.next, worldUpdateRound, hs]
    split
    · exact World.SameUsers.refl s.world
    · rename_i hmode
      exact sameUsers_update (h.resolve_left hmode)

/-- In a cluster the condition is not only enough. -/
theorem spares_of_sameUsers (hs : ctx.nodeType = .Slave) (hc : ctx.mode = .Cluster) {s : NodeState}
    {a : NodeTask} (h : s.world.SameUsers (s.next ctx a).world) : a.Spares ctx s.world := by
  cases a with
  | request env peerId msg =>
    have he := handleMsgTask_world_of_slave hs env s.world peerId msg
    simp only [NodeState.next] at h
    rw [he] at h
    rcases slaveOps_cases env ctx s.world msg with hops | ⟨op,hops⟩
    · intro op hop
      rw [hops] at hop
      cases hop
    · rw [hops] at h
      intro op' hop'
      have hmem := hop'
      rw [hops] at hop'
      obtain rfl := List.mem_singleton.mp hop'
      rcases slaveOps_of_cluster hc hmem with ⟨_,_,rfl⟩ | ⟨_,rfl⟩ | ⟨user,rfl⟩ | ⟨userId,rfl⟩
      · trivial
      · trivial
      · exact (sameUsers_addUser_iff user).mp h
      · exact (sameUsers_removeUser_iff userId).mp h
  | expire clientId => trivial
  | countConnections count => trivial
  | round => exact Or.inl hc

end

/-! ## Runs of a slave -/

/-- A node, with the maps as the last snapshot left them and the index it started with. -/
structure Replica extends NodeState where
  maps : Maps
  users : HashMap UserId User

/-- A task of the node, a snapshot that is applied, or a new enumeration of the hash maps. -/
inductive ReplicaTask
  | own (a : NodeTask)
  | snapshot (dto : WorldSyncDTO)
  | reorder

namespace Replica

/-- Only snapshots have written the users: the scenes are those of the last one, and the
index is the first one. -/
structure Untouched (s : Replica) : Prop where
  maps : ∀ tag id, userAt s.world.maps tag id = userAt s.maps tag id
  users : ∀ id, s.world.users.lookup id = s.users.lookup id

def next (ctx : ServerContext) (s : Replica) (a : NodeTask) : Replica :=
  { s with toNodeState := s.toNodeState.next ctx a }

def Spares (ctx : ServerContext) (s : Replica) : ReplicaTask → Prop
  | .own a => a.Spares ctx s.world
  | .snapshot _ => True
  | .reorder => True

end Replica

inductive ReplicaStep (ctx : ServerContext) : Replica → ReplicaTask → Replica → Prop
  | own {s : Replica} (a : NodeTask) : ReplicaStep ctx s (.own a) (s.next ctx a)
  | snapshot {s : Replica} (dto : WorldSyncDTO) :
      ReplicaStep ctx s (.snapshot dto) { s with
        world := (s.world.syncFromMaster dto).state
        maps := (s.world.syncFromMaster dto).state.maps }
  | reorder {s : Replica} {w : World} : s.world.Same w → ReplicaStep ctx s .reorder { s with world := w }

def replicaLts (ctx : ServerContext) : Lts Replica ReplicaTask where
  init s := s.maps = s.world.maps ∧ s.users = s.world.users
  step := ReplicaStep ctx

namespace Replica.Untouched
variable {ctx : ServerContext} {s t : Replica}

theorem of_init (h : (replicaLts ctx).init s) : s.Untouched :=
  ⟨fun _ _ => by rw [h.1],fun _ => by rw [h.2]⟩

theorem of_sameUsers (h : s.Untouched) (hw : s.world.SameUsers t.world) (hm : t.maps = s.maps)
    (hu : t.users = s.users) : t.Untouched where
  maps tag id := by rw [hw.maps, hm, h.maps]
  users id := by rw [hw.users, hu, h.users]

theorem sameUsers (h : s.Untouched) (h' : t.Untouched) (hm : t.maps = s.maps) (hu : t.users = s.users) :
    s.world.SameUsers t.world where
  maps tag id := by rw [h'.maps, hm, h.maps]
  users id := by rw [h'.users, hu, h.users]

theorem step (hs : ctx.nodeType = .Slave) (h : s.Untouched) {a : ReplicaTask} (ha : s.Spares ctx a)
    (hst : ReplicaStep ctx s a t) : t.Untouched := by
  cases hst with
  | own a => exact h.of_sameUsers (sameUsers_next hs ha) rfl rfl
  | snapshot dto =>
    refine ⟨fun _ _ => rfl,fun id => ?_⟩
    dsimp only
    rw [users_syncFromMaster]
    exact h.users id
  | reorder hsame => exact h.of_sameUsers (World.SameUsers.of_same hsame) rfl rfl

theorem spares (hs : ctx.nodeType = .Slave) (hc : ctx.mode = .Cluster) (h : s.Untouched)
    {a : ReplicaTask} (hst : ReplicaStep ctx s a t) (h' : t.Untouched) : s.Spares ctx a := by
  cases hst with
  | own a => exact spares_of_sameUsers hs hc (h.sameUsers h' rfl rfl)
  | snapshot dto => trivial
  | reorder hsame => trivial

end Replica.Untouched

/-- In every run of a slave whose steps all have nothing of their own to write, only snapshots
have written the users at any time; in a cluster a run of which that is true has no other steps. -/
theorem untouched_of_spared {ctx : ServerContext} (hs : ctx.nodeType = .Slave)
    {past : List (Replica × ReplicaTask)} {s : Replica} (h : Run (replicaLts ctx) past s) :
    ((∀ p ∈ past, p.1.Spares ctx p.2) → Run.Always Replica.Untouched past s) ∧
    (ctx.mode = .Cluster → Run.Always Replica.Untouched past s → ∀ p ∈ past, p.1.Spares ctx p.2) := by
  have h0 : ∀ s, (replicaLts ctx).init s → s.Untouched := fun _ hi => Replica.Untouched.of_init hi
  have hstep : ∀ s a t, s.Untouched → s.Spares ctx a → (replicaLts ctx).step s a t → t.Untouched :=
    fun _ _ _ hu ha hst => hu.step hs ha hst
  refine ⟨Run.always_of h0 (fun _ hu => hu) hstep h,?_⟩
  intro hc
  exact (Run.always_iff (C := Replica.Spares ctx) h0 (fun _ hu => hu) hstep
    (fun _ _ _ hu hst hu' => hu.spares hs hc hst hu') h).mp

def Replica.start (w : World) : Replica := { world := w, used := ∅, maps := w.maps, users := w.users }

theorem run_replica (ctx : ServerContext) (w : World) (acts : List NodeTask) :
    Run (replicaLts ctx) (Run.record (Replica.next ctx) ReplicaTask.own (Replica.start w) acts)
      (acts.foldl (Replica.next ctx) (Replica.start w)) := by
  have h₀ : (replicaLts ctx).init (Replica.start w) := ⟨rfl,rfl⟩
  exact Run.of_start (Replica.next ctx) (fun _ _ => True) ReplicaTask.own
    (fun _ a _ => ReplicaStep.own a) h₀ (Run.allowed_of_forall (fun _ _ => trivial) _ acts)

def Replica.synced (w master : World) : Replica :=
  { world := w.syncedFrom master, used := ∅, maps := (w.syncedFrom master).maps, users := w.users }

theorem run_synced (ctx : ServerContext) (w master : World) :
    Run (replicaLts ctx) [(Replica.start w,.snapshot (WorldSyncDTO.fromMaps master.maps))]
      (Replica.synced w master) := by
  have h₀ : Run (replicaLts ctx) [] (Replica.start w) := Run.start ⟨rfl,rfl⟩
  exact h₀.next (ReplicaStep.snapshot _)

/-- The player is added once more, a user nobody knows is deleted, a client logs in, the world
clock ticks, and the client goes offline. -/
def visit : List NodeTask :=
  [.request .plain "peer" (Message.addUser "client" player),.request .plain "peer" (Message.delUser "client" 7),
    .request .plain "peer" (Message.login "client"),.round,.expire "client",.countConnections 0]

theorem spares_login (ctx : ServerContext) (w : World) :
    (NodeTask.request .plain "peer" (Message.login "client")).Spares ctx w := by
  have hops : slaveOps .plain ctx w (Message.login "client") = [] ∨
      slaveOps .plain ctx w (Message.login "client") = [.login "client" Surroundings.plain.nextId] :=
    ite_eq_or_eq _ _ _
  intro op hop
  rcases hops with he | he
  · rw [he] at hop
    cases hop
  · rw [he] at hop
    rw [List.mem_singleton.mp hop]
    trivial

theorem spares_visit {ctx : ServerContext} (hs : ctx.nodeType = .Slave) (hc : ctx.mode = .Cluster) {s : Replica}
    (hplayer : s.world.Holds player) (hnone : s.world.users.lookup 7 = none) :
    Run.Allowed (Replica.next ctx) (fun s a => a.Spares ctx s.world) s visit := by
  have hadd : (NodeTask.request .plain "peer" (Message.addUser "client" player)).Spares ctx s.world := by
    intro op hop
    rw [List.mem_singleton.mp hop]
    exact hplayer
  have hsame := sameUsers_next hs hadd
  refine ⟨hadd,?_,spares_login _ _,Or.inl hc,trivial,trivial,trivial⟩
  intro op hop
  rw [List.mem_singleton.mp hop]
  rintro ⟨u,hu,-⟩
  cases hu.symm.trans ((hsame.users 7).trans hnone)

theorem run_visit (ctx : ServerContext) (w master : World) :
    Run (replicaLts ctx)
      (Run.record (Replica.next ctx) ReplicaTask.own (Replica.synced w master) visit ++
        [(Replica.start w,.snapshot (WorldSyncDTO.fromMaps master.maps))])
      (visit.foldl (Replica.next ctx) (Replica.synced w master)) :=
  Run.of_acts (Replica.next ctx) (fun _ _ => True) ReplicaTask.own (fun _ a _ => ReplicaStep.own a)
    (run_synced ctx w master) (Run.allowed_of_forall (fun _ _ => trivial) _ visit)

theorem spares_run_visit {ctx : ServerContext} (hs : ctx.nodeType = .Slave) (hc : ctx.mode = .Cluster)
    {w master : World} (hplayer : (w.syncedFrom master).Holds player)
    (hnone : (w.syncedFrom master).users.lookup 7 = none) :
    ∀ p ∈ Run.record (Replica.next ctx) ReplicaTask.own (Replica.synced w master) visit ++
        [(Replica.start w,.snapshot (WorldSyncDTO.fromMaps master.maps))], p.1.Spares ctx p.2 := by
  intro p hp
  rcases List.mem_append.mp hp with hp | hp
  · have hallowed := spares_visit hs hc (s := Replica.synced w master) hplayer hnone
    exact Run.forall_record (P := Replica.Spares ctx) (fun _ _ h => h) hallowed p hp
  · obtain rfl := List.mem_singleton.mp hp
    trivial

theorem users_syncedFrom_player (w master : World) (id : UserId) :
    ((w.addUser player).syncedFrom master).users.lookup id =
      if id = player.id then some player else w.users.lookup id := by
  rw [World.syncedFrom, users_syncFromMaster, lookup_addUser]

theorem holds_syncedFrom_player {w : World} (hg : w.OnGrid) :
    ((w.addUser player).syncedFrom ((World.init .master).addUser player)).Holds player := by
  have hg' : (w.addUser player).OnGrid := ⟨hg.area,hg.layout.adjust _ (fun _ => rfl)⟩
  refine ⟨(users_syncedFrom_player w _ player.id).trans (if_pos rfl),fun _ => ?_⟩
  rw [(onGrid_syncedFrom hg' _).area]
  exact userAt_syncedFrom_player hg'

/-- The slave holds the player in its index too. -/
theorem untouched_of_spared_visit :
    Run.Always Replica.Untouched
      (Run.record (Replica.next (ServerContext.run .slave)) ReplicaTask.own
        (Replica.synced ((World.init .slave).addUser player) ((World.init .master).addUser player)) visit ++
        [(Replica.start ((World.init .slave).addUser player),
          .snapshot (WorldSyncDTO.fromMaps ((World.init .master).addUser player).maps))])
      (visit.foldl (Replica.next (ServerContext.run .slave))
        (Replica.synced ((World.init .slave).addUser player) ((World.init .master).addUser player))) := by
  have hg : (World.init .slave).OnGrid := ⟨rfl,layout_init .slave⟩
  have hnone := (users_syncedFrom_player (World.init .slave) ((World.init .master).addUser player) 7).trans
    (if_neg (by decide))
  exact (untouched_of_spared GameServerConf.slave_nodeType (run_visit _ _ _)).1
    (spares_run_visit GameServerConf.slave_nodeType GameServerConf.slave_mode (holds_syncedFrom_player hg) hnone)

def strayUser : List NodeTask :=
  [.request .plain "peer" (Message.addUser "client" (User.randomWithoutVelocity 1 (Vector2.new 5 7)))]

theorem slave_written : ¬ ∀ (ctx : ServerContext) (past : List (Replica × ReplicaTask)) (s : Replica),
    ctx.nodeType = .Slave → Run (replicaLts ctx) past s → s.Untouched := by
  intro hall
  have h := hall (ServerContext.run .slave) _ _ GameServerConf.slave_nodeType
    (run_replica _ (World.init .slave) strayUser)
  have hu := h.users 1
  cases hu

end GameServer.Server
