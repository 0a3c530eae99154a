import GameServer.Server.Conservation
import GameServer.Server.MainHandle

/-! # One node and its players

The tasks of a node that owns its world take the world lock once each, so a run is a
sequence of handled messages, expiries and rounds. Every player in a map belongs to
exactly one client of the session table, also after an operation that panicked.
-/
namespace GameServer.Server
open Common CommonServer Library

/-- The world of a node, and the ids its generator has returned. -/
structure NodeState where
  world : World
  used : Finset UserId

inductive NodeTask
  | request (env : Surroundings) (peerId : PeerIdentity) (msg : Message)
  | expire (clientId : String)
  | countConnections (count : UInt32)
  | round

def World.Draws (w : World) (msg : Message) : Prop :=
  msg.operation = .Login ∧ w.clientMap.lookup msg.clientId = none

instance (w : World) (msg : Message) : Decidable (w.Draws msg) := by
  unfold World.Draws; infer_instance

namespace NodeState

def next (ctx : ServerContext) (s : NodeState) : NodeTask → NodeState
  | .request env peerId msg =>
    { world := (handleMsgTask env ctx s.world peerId msg).world
      used := if s.world.Draws msg then insert env.nextId s.used else s.used }
  | .expire clientId => { s with world := (removeOfflineClient ctx s.world clientId).world }
  | .countConnections count => { s with world := { s.world with connectionCount := count } }
  | .round => { s with world := (worldUpdateRound ctx s.world).state }

/-- No server sends this node its users, and the generator returns no id again. -/
def Admissible (s : NodeState) : NodeTask → Prop
  | .request env _ msg => msg.operation ≠ .AddUser ∧ msg.operation ≠ .DelUser ∧
      (s.world.Draws msg → env.nextId ∉ s.used)
  | _ => True

end NodeState

/-- A task, or a new enumeration order of the hash maps. -/
inductive NodeStep (ctx : ServerContext) : NodeState → Option NodeTask → NodeState → Prop
  | task {s : NodeState} {a : NodeTask} : s.Admissible a → NodeStep ctx s (some a) (s.next ctx a)
  | reorder {s : NodeState} {w : World} : s.world.Same w → NodeStep ctx s none { s with world := w }

def nodeTaskLts (conf : GameServerConf) : Lts NodeState (Option NodeTask) where
  init s := s = { world := World.init conf, used := ∅ }
  step := NodeStep (ServerContext.run conf)

/-- Every stored player belongs to exactly one client, and no id comes from nowhere. -/
structure World.Owned (w : World) (used : Finset UserId) : Prop where
  settled : w.Settled
  users : ∀ id ∈ w.userIds, id ∈ used
  clients : ∀ clientId id, w.clientMap.lookup clientId = some id → id ∈ used
  injective : ∀ clientId clientId' id, w.clientMap.lookup clientId = some id →
    w.clientMap.lookup clientId' = some id → clientId = clientId'
  owner : ∀ id ∈ mapIds w.maps, ∃ clientId, w.clientMap.lookup clientId = some id

/-! ## What each operation keeps -/

theorem mapIds_subset_userIds {w : World} (h : w.Settled) {id : UserId} (hid : id ∈ mapIds w.maps) :
    id ∈ w.userIds := by
  obtain ⟨tag,u,hu⟩ := hid
  obtain ⟨v,hv,-⟩ := h.agree tag id u hu
  exact ⟨v,hv⟩

theorem fresh_of_not_stored {w : World} (h : w.Settled) {id : UserId} (hid : id ∉ w.userIds) :
    w.Fresh id := fresh_of_notMem hid (fun hm => hid (mapIds_subset_userIds h hm))

/-- A removed user is in no map afterwards, also where the removal panicked. -/
theorem not_stored_after_removeUser {w : World} (h : w.Settled) (id : UserId) :
    id ∉ mapIds (w.removeUser id).state.maps := by
  rintro ⟨tag,u,hu⟩
  have hold := (userAt_of_removeUser h hu).1
  obtain ⟨-,hmaps,-⟩ := removeUser_of_stored h ⟨tag,u,hold⟩
  exact ((hmaps id).mp ⟨tag,u,hu⟩).2 rfl

theorem removeUser_clientMap (w : World) (id : UserId) : (w.removeUser id).state.clientMap = w.clientMap := by
  rcases removeUser_cases w id with ⟨-,he⟩ | ⟨v,-,-,he⟩ | ⟨v,-,-,he⟩ <;> rw [he] <;> rfl

theorem removeUserByClientId_clientMap (w : World) (clientId : String) :
    (w.removeUserByClientId clientId).state.clientMap = w.clientMap.erase clientId := by
  unfold World.removeUserByClientId
  cases w.clientMap.lookup clientId with
  | none => rfl
  | some id => exact removeUser_clientMap _ id

theorem setVelocity_clientMap (w : World) (id : UserId) (velocity : Velocity) :
    (w.setVelocity id velocity).clientMap = w.clientMap := by
  unfold World.setVelocity
  cases w.users.lookup id <;> rfl

theorem aoe_clientMap (overflow : Overflow) (order : HashMap UserId User → List User) (w : World)
    (id : UserId) (radius : ℚ) (money : UInt64) :
    (w.aoe overflow order id radius money).state.clientMap = w.clientMap := by
  rw [(credited_aoe overflow order w id radius money).rest]

theorem userIds_removeUser_subset {w : World} {id i : UserId} (hi : i ∈ (w.removeUser id).state.userIds) :
    i ∈ w.userIds := by
  rcases removeUser_cases w id with ⟨-,he⟩ | ⟨v,-,-,he⟩ | ⟨v,-,-,he⟩
  · rwa [he] at hi
  · rwa [he] at hi
  · rw [he] at hi
    obtain ⟨u,hu⟩ := hi
    exact ⟨u,(AList.lookup_of_lookup_erase hu).2⟩

theorem ids_removeUser_subset {w : World} (h : w.Settled) (id : UserId) :
    (∀ i ∈ mapIds (w.removeUser id).state.maps, i ∈ mapIds w.maps) ∧
      ∀ i ∈ (w.removeUser id).state.userIds, i ∈ w.userIds := by
  refine ⟨?_,fun i hi => userIds_removeUser_subset hi⟩
  rintro i ⟨tag,u,hu⟩
  exact ⟨tag,u,(userAt_of_removeUser h hu).1⟩

theorem addsFresh_of_ne {a : WorldOp} (ha : ∀ user, a ≠ .addUser user) (w : World) : a.AddsFresh w := by
  cases a with
  | addUser user => exact absurd rfl (ha user)
  | _ => trivial

/-- Only `addUser` brings in an id. -/
theorem ids_run_subset {overflow : Overflow} {w : World} (h : w.Settled) {a : WorldOp}
    (ha : ∀ user, a ≠ .addUser user) :
    (∀ id ∈ mapIds (a.run overflow w).state.maps, id ∈ mapIds w.maps) ∧
      ∀ id ∈ (a.run overflow w).state.userIds, id ∈ w.userIds := by
  cases a with
  | addUser user => exact absurd rfl (ha user)
  | removeUser userId => exact ids_removeUser_subset h userId
  | login clientId userId => exact ⟨fun _ hi => hi,fun _ hi => hi⟩
  | logout clientId => exact ⟨fun _ hi => hi,fun _ hi => hi⟩
  | removeUserByClientId clientId =>
    have hset := settled_clientMap h (w.clientMap.erase clientId)
    simp only [WorldOp.run, World.removeUserByClientId]
    cases w.clientMap.lookup clientId with
    | none => exact ⟨fun _ hi => hi,fun _ hi => hi⟩
    | some id => exact ids_removeUser_subset hset id
  | setVelocity id velocity =>
    obtain ⟨hm,hu⟩ := ids_setVelocity w id velocity
    exact ⟨fun _ hi => hm ▸ hi,fun _ hi => hu ▸ hi⟩
  | aoe order id radius money =>
    obtain ⟨hm,hu⟩ := ids_credited (credited_aoe overflow order w id radius money)
    exact ⟨fun _ hi => hm ▸ hi,fun _ hi => hu ▸ hi⟩
  | update =>
    have hold : ∀ tag id u, userAt w.movedMaps tag id = some u → id ∈ mapIds w.maps := by
      intro tag id u hu
      obtain ⟨t,u₀,hu₀,-⟩ := h.userAt_movedMaps.mp hu
      exact ⟨t,u₀,hu₀⟩
    simp only [WorldOp.run, h.update_eq]
    constructor
    · rintro id ⟨tag,u,hu⟩
      exact hold tag id u hu
    · rintro id ⟨u,hu⟩
      obtain ⟨tag,hat⟩ := h.lookup_collectUsers_moved.mp hu
      exact mapIds_subset_userIds h (hold tag id u hat)

namespace World.Owned
variable {w : World} {used : Finset UserId}

theorem of_subset (h : w.Owned used) {w' : World} (hs : w'.Settled)
    (hc : w'.clientMap.Same w.clientMap) (hm : ∀ id ∈ mapIds w'.maps, id ∈ mapIds w.maps)
    (hu : ∀ id ∈ w'.userIds, id ∈ w.userIds) : w'.Owned used where
  settled := hs
  users id hid := h.users id (hu id hid)
  clients clientId id hl := h.clients clientId id ((hc clientId).symm.trans hl)
  injective c c' id hl hl' := h.injective c c' id ((hc c).symm.trans hl) ((hc c').symm.trans hl')
  owner id hid := by
    obtain ⟨clientId,hl⟩ := h.owner id (hm id hid)
    exact ⟨clientId,(hc clientId).trans hl⟩

theorem login (h : w.Owned used) {clientId : String} {user : User}
    (hfree : w.clientMap.lookup clientId = none) (hnew : user.id ∉ used) :
    ({ w with clientMap := w.clientMap.insert clientId user.id }.addUser user).Owned
      (insert user.id used) := by
  have hset := settled_clientMap h.settled (w.clientMap.insert clientId user.id)
  have hnone : ∀ clientId', w.clientMap.lookup clientId' ≠ some user.id := fun clientId' hl =>
    hnew (h.clients clientId' user.id hl)
  have hfresh : { w with clientMap := w.clientMap.insert clientId user.id }.Fresh user.id :=
    fresh_of_not_stored hset (fun hid => hnew (h.users user.id hid))
  have hlook : ∀ clientId' id, (w.clientMap.insert clientId user.id).lookup clientId' = some id →
      (clientId' = clientId ∧ id = user.id) ∨ (id ≠ user.id ∧ w.clientMap.lookup clientId' = some id) := by
    intro clientId' id hl
    rw [AList.lookup_insert_eq] at hl
    split at hl
    · rename_i hk
      exact Or.inl ⟨hk,(Option.some.inj hl).symm⟩
    · refine Or.inr ⟨?_,hl⟩
      rintro rfl
      exact hnone clientId' hl
  refine ⟨settled_addUser hset hfresh,?_,?_,?_,?_⟩
  · intro id hid
    rcases (userIds_addUser _ user).mp hid with hold | rfl
    · exact Finset.mem_insert_of_mem (h.users id hold)
    · exact Finset.mem_insert_self _ _
  · intro clientId' id hl
    rcases hlook clientId' id hl with ⟨-,rfl⟩ | ⟨-,hold⟩
    · exact Finset.mem_insert_self _ _
    · exact Finset.mem_insert_of_mem (h.clients clientId' id hold)
  · intro c c' id hl hl'
    rcases hlook c id hl with ⟨rfl,rfl⟩ | ⟨hne,hold⟩
    · rcases hlook c' _ hl' with ⟨rfl,-⟩ | ⟨hne,-⟩
      · rfl
      · exact absurd rfl hne
    · rcases hlook c' id hl' with ⟨-,he⟩ | ⟨-,hold'⟩
      · exact absurd he hne
      · exact h.injective c c' id hold hold'
  · rintro id ⟨tag,u,hu⟩
    rcases userAt_addUser_cases hfresh hu with ⟨rfl,-,-⟩ | ⟨-,hold⟩
    · exact ⟨clientId,AList.lookup_insert _⟩
    · obtain ⟨c,hl⟩ := h.owner id ⟨tag,u,hold⟩
      refine ⟨c,(AList.lookup_insert_of_value_ne hfree ?_).mpr hl⟩
      rintro rfl
      exact hnone c hl

theorem removeUserByClientId (h : w.Owned used) (clientId : String) :
    (w.removeUserByClientId clientId).state.Owned used := by
  have herase : ∀ {clientId' id}, (w.clientMap.erase clientId).lookup clientId' = some id →
      clientId' ≠ clientId ∧ w.clientMap.lookup clientId' = some id := AList.lookup_of_lookup_erase
  have hset := settled_clientMap h.settled (w.clientMap.erase clientId)
  cases hid : w.clientMap.lookup clientId with
  | none =>
    have hsame : (w.clientMap.erase clientId).Same w.clientMap := by
      intro c
      rw [AList.lookup_erase_eq]
      split
      · rename_i hc
        rw [hc, hid]
      · rfl
    simp only [World.removeUserByClientId, hid]
    exact h.of_subset hset hsame (fun _ hi => hi) (fun _ hi => hi)
  | some id =>
    simp only [World.removeUserByClientId, hid]
    have hc := removeUser_clientMap { w with clientMap := w.clientMap.erase clientId } id
    refine ⟨settled_removeUser hset id,?_,?_,?_,?_⟩
    · intro i hi
      have hold : i ∈ { w with clientMap := w.clientMap.erase clientId }.userIds :=
        userIds_removeUser_subset hi
      exact h.users i hold
    · intro c i hl
      rw [hc] at hl
      exact h.clients c i (herase hl).2
    · intro c c' i hl hl'
      rw [hc] at hl hl'
      exact h.injective c c' i (herase hl).2 (herase hl').2
    · rintro i ⟨tag,u,hu⟩
      obtain ⟨c,hl⟩ := h.owner i ⟨tag,u,(userAt_of_removeUser hset hu).1⟩
      refine ⟨c,?_⟩
      have hne : i ≠ id := by
        rintro rfl
        exact not_stored_after_removeUser hset i ⟨tag,u,hu⟩
      rw [hc]
      exact (AList.lookup_erase_of_value_ne hid hne).mpr hl

theorem run (h : w.Owned used) (overflow : Overflow) {a : WorldOp} (ha : ∀ user, a ≠ .addUser user)
    (hc : (a.run overflow w).state.clientMap = w.clientMap) : (a.run overflow w).state.Owned used := by
  obtain ⟨hm,hu⟩ := ids_run_subset h.settled ha
  exact h.of_subset (settled_run h.settled (addsFresh_of_ne ha w)) (hc ▸ AList.Same.refl _) hm hu

theorem setVelocity (h : w.Owned used) (id : UserId) (velocity : Velocity) :
    (w.setVelocity id velocity).Owned used :=
  h.run .wraps (a := .setVelocity id velocity) (fun _ he => by cases he) (setVelocity_clientMap w id velocity)

theorem aoe (h : w.Owned used) (overflow : Overflow) (order : HashMap UserId User → List User)
    (id : UserId) (radius : ℚ) (money : UInt64) :
    (w.aoe overflow order id radius money).state.Owned used :=
  h.run overflow (a := .aoe order id radius money) (fun _ he => by cases he)
    (aoe_clientMap overflow order w id radius money)

theorem update (h : w.Owned used) : w.update.state.Owned used := by
  apply h.run .wraps (a := .update) (fun _ he => by cases he)
  simp only [WorldOp.run, h.settled.update_eq]
  rfl

theorem same (h : w.Owned used) {w' : World} (hs : w.Same w') : w'.Owned used := by
  obtain ⟨hm,hu⟩ := ids_same hs
  exact h.of_subset (settled_of_same h.settled hs) (fun c => (hs.clientMap c).symm)
    (fun i hi => hm ▸ hi) (fun i hi => hu ▸ hi)

end World.Owned

/-! ## What a task does to the sessions -/

/-- No session appears except under an id that was never drawn before. -/
structure NodeState.Follows (s t : NodeState) : Prop where
  used : s.used ⊆ t.used
  clients : ∀ clientId id, t.world.clientMap.lookup clientId = some id →
    s.world.clientMap.lookup clientId = some id ∨ id ∉ s.used

theorem NodeState.Follows.of_sessions {s : NodeState} {w : World}
    (h : ∀ clientId id, w.clientMap.lookup clientId = some id →
      s.world.clientMap.lookup clientId = some id) : s.Follows { s with world := w } :=
  ⟨fun _ hi => hi,fun clientId id hl => Or.inl (h clientId id hl)⟩

section
variable {ctx : ServerContext} {s : NodeState}

theorem owned_message (h : s.world.Owned s.used) (env : Surroundings) {msg : Message}
    (hl : msg.operation ≠ .Login) (ha : msg.operation ≠ .AddUser) (hd : msg.operation ≠ .DelUser) :
    (s.world.apply env.overflow (masterOps env s.world msg)).Owned s.used ∧
      ∀ clientId id,
        (s.world.apply env.overflow (masterOps env s.world msg)).clientMap.lookup clientId = some id →
        s.world.clientMap.lookup clientId = some id := by
  cases hop : msg.operation with
  | Login => exact absurd hop hl
  | AddUser => exact absurd hop ha
  | DelUser => exact absurd hop hd
  | Logout =>
    simp only [masterOps, hop]
    refine ⟨h.removeUserByClientId msg.clientId,?_⟩
    intro clientId id he
    have hc := removeUserByClientId_clientMap s.world msg.clientId
    exact (AList.lookup_of_lookup_erase (hc ▸ he)).2
  | Aoe =>
    simp only [masterOps, hop]
    split
    · rename_i radius money id _ _
      refine ⟨h.aoe env.overflow env.order id radius money,?_⟩
      intro clientId i he
      exact aoe_clientMap env.overflow env.order s.world id radius money ▸ he
    · exact ⟨h,fun _ _ he => he⟩
  | SetVelocity =>
    simp only [masterOps, hop]
    split
    · rename_i velocity id _ _
      refine ⟨h.setVelocity id velocity,?_⟩
      intro clientId i he
      exact setVelocity_clientMap s.world id velocity ▸ he
    · exact ⟨h,fun _ _ he => he⟩
  | _ =>
    simp only [masterOps, hop]
    exact ⟨h,fun _ _ he => he⟩

theorem owned_request (hm : ctx.nodeType = .Master) (h : s.world.Owned s.used) (env : Surroundings)
    (peerId : PeerIdentity) (msg : Message) (ha : s.Admissible (.request env peerId msg)) :
    (s.next ctx (.request env peerId msg)).world.Owned (s.next ctx (.request env peerId msg)).used ∧
      s.Follows (s.next ctx (.request env peerId msg)) := by
  obtain ⟨hadd,hdel,hfresh⟩ := ha
  simp only [NodeState.next, handleMsgTask_world hm]
  by_cases hlogin : msg.operation = .Login
  · cases hl : s.world.clientMap.lookup msg.clientId with
    | some id =>
      have hno : ¬ s.world.Draws msg := fun hdraw => by simp [World.Draws, hl] at hdraw
      simp only [if_neg hno, masterOps, hlogin, hl, Option.isSome_some, if_true]
      exact ⟨h,NodeState.Follows.of_sessions (fun _ _ he => he)⟩
    | none =>
      have hdraw : s.world.Draws msg := ⟨hlogin,hl⟩
      have hnew := hfresh hdraw
      simp only [if_pos hdraw, masterOps, hlogin, hl, Option.isSome_none, Bool.false_eq_true, if_false]
      have ho : ({ s.world with clientMap := s.world.clientMap.insert msg.clientId env.nextId }.addUser
          (User.randomWithoutVelocity env.nextId env.randPosition)).Owned (insert env.nextId s.used) :=
        h.login hl hnew
      refine ⟨ho,Finset.subset_insert _ _,?_⟩
      intro clientId id he
      have he' : (s.world.clientMap.insert msg.clientId env.nextId).lookup clientId = some id := he
      rw [AList.lookup_insert_eq] at he'
      split at he'
      · obtain rfl := Option.some.inj he'
        exact Or.inr hnew
      · exact Or.inl he'
  · have hno : ¬ s.world.Draws msg := fun hdraw => hlogin hdraw.1
    rw [if_neg hno]
    obtain ⟨ho,hc⟩ := owned_message h env hlogin hadd hdel
    exact ⟨ho,NodeState.Follows.of_sessions hc⟩

/-- Every task keeps the owners and starts sessions under new ids only. -/
theorem owned_next (hm : ctx.nodeType = .Master) (h : s.world.Owned s.used) {a : NodeTask}
    (ha : s.Admissible a) : (s.next ctx a).world.Owned (s.next ctx a).used ∧ s.Follows (s.next ctx a) := by
  cases a with
  | request env peerId msg => exact owned_request hm h env peerId msg ha
  | expire clientId =>
    simp only [NodeState.next, removeOfflineClient_world hm]
    refine ⟨h.removeUserByClientId clientId,NodeState.Follows.of_sessions ?_⟩
    intro clientId' id he
    rw [removeUserByClientId_clientMap] at he
    exact (AList.lookup_of_lookup_erase he).2
  | countConnections count =>
    have hset : ({ s.world with connectionCount := count } : World).Settled :=
      ⟨h.settled.area,h.settled.layout,h.settled.ids,h.settled.placed,h.settled.agree⟩
    exact ⟨h.of_subset hset (AList.Same.refl _) (fun _ hi => hi) (fun _ hi => hi),
      NodeState.Follows.of_sessions (fun _ _ he => he)⟩
  | round =>
    simp only [NodeState.next, worldUpdateRound_of_master hm]
    refine ⟨h.update,NodeState.Follows.of_sessions ?_⟩
    intro clientId id he
    rw [h.settled.update_eq] at he
    exact he

theorem owned_step (hm : ctx.nodeType = .Master) (h : s.world.Owned s.used) {a : Option NodeTask}
    {t : NodeState} (hst : NodeStep ctx s a t) : t.world.Owned t.used ∧ s.Follows t := by
  cases hst with
  | task ha => exact owned_next hm h ha
  | reorder hs =>
    refine ⟨h.same hs,NodeState.Follows.of_sessions ?_⟩
    intro clientId id he
    rw [hs.clientMap clientId]
    exact he

end

theorem owned_init (conf : GameServerConf) : (World.init conf).Owned ∅ where
  settled := settled_init conf
  users id hid := by rw [userIds_init] at hid; cases hid
  clients clientId id hl := by cases hl
  injective clientId clientId' id hl := by cases hl
  owner id hid := by rw [mapIds_init] at hid; cases hid

section
variable {conf : GameServerConf} (hm : conf.node.nodeType = .Master)
  {past : List (NodeState × Option NodeTask)} {s : NodeState}
include hm

theorem owned_of_run (h : Run (nodeTaskLts conf) past s) : s.world.Owned s.used := by
  refine Run.invariant (I := fun s => s.world.Owned s.used) ?_ ?_ h
  · rintro s rfl
    exact owned_init conf
  · exact fun s a t hi hst => (owned_step hm hi hst).1

/-- An id a client once had stays with that client or is given up for good. -/
theorem kept_or_gone (h : Run (nodeTaskLts conf) past s) : ∀ p ∈ past, ∀ clientId id,
    p.1.world.clientMap.lookup clientId = some id → id ∈ s.used ∧
      ∀ clientId', s.world.clientMap.lookup clientId' = some id → clientId' = clientId := by
  induction h with
  | start => exact fun p hp => by cases hp
  | @next past s t a hr hst ih =>
    have ho := owned_of_run hm hr
    obtain ⟨hused,hclients⟩ := (owned_step hm ho hst).2
    intro p hp clientId id hl
    have hbefore : id ∈ s.used ∧
        ∀ clientId', s.world.clientMap.lookup clientId' = some id → clientId' = clientId := by
      rcases List.mem_cons.mp hp with rfl | hp
      · exact ⟨ho.clients clientId id hl,fun clientId' hl' => ho.injective clientId' clientId id hl' hl⟩
      · exact ih p hp clientId id hl
    refine ⟨hused hbefore.1,?_⟩
    intro clientId' hl'
    rcases hclients clientId' id hl' with hold | hnew
    · exact hbefore.2 clientId' hold
    · exact absurd hbefore.1 hnew

end

theorem handleMsgTask_of_logged_in (ctx : ServerContext) (env : Surroundings) {w : World} {msg : Message}
    (hop : msg.operation = .Login) {id : UserId} (hl : w.clientMap.lookup msg.clientId = some id)
    (peerId : PeerIdentity) : (handleMsgTask env ctx w peerId msg).world = w := by
  simp only [handleMsgTask, hop, handleLogin, hl, Option.isSome_some, if_true]
  rfl

/-- Along every run no two clients share a user, a repeated login changes nothing, every
player in a map is the user of a client, and an ended session leaves no player behind. -/
theorem no_ghosts {conf : GameServerConf} (hm : conf.node.nodeType = .Master)
    {past : List (NodeState × Option NodeTask)} {s : NodeState} (h : Run (nodeTaskLts conf) past s) :
    (∀ clientId clientId' id, s.world.clientMap.lookup clientId = some id →
      s.world.clientMap.lookup clientId' = some id → clientId = clientId') ∧
    (∀ env peerId msg, msg.operation = .Login → (s.world.clientMap.lookup msg.clientId).isSome →
      (handleMsgTask env (ServerContext.run conf) s.world peerId msg).world = s.world) ∧
    (∀ id ∈ mapIds s.world.maps, ∃ clientId, s.world.clientMap.lookup clientId = some id) ∧
    ∀ p ∈ past, ∀ clientId id, p.1.world.clientMap.lookup clientId = some id →
      s.world.clientMap.lookup clientId ≠ some id → id ∉ mapIds s.world.maps := by
  have ho := owned_of_run hm h
  refine ⟨ho.injective,?_,ho.owner,?_⟩
  · intro env peerId msg hop hsome
    obtain ⟨id,hl⟩ := Option.isSome_iff_exists.mp hsome
    exact handleMsgTask_of_logged_in _ env hop hl peerId
  · intro p hp clientId id hl hend hid
    obtain ⟨clientId',hl'⟩ := ho.owner id hid
    obtain rfl := (kept_or_gone hm h p hp clientId id hl).2 clientId' hl'
    exact hend hl'

theorem no_ghosts_first_client :
    let ctx := ServerContext.run .single
    let s := NodeState.next ctx { world := World.init .single, used := ∅ }
      (.request .plain "client" (Message.login "client"))
    (2 : UserId) ∉ mapIds (s.next ctx (.request .plain "client" (Message.logout "client"))).world.maps := by
  intro ctx s
  have hlogin : (NodeState.mk (World.init .single) ∅).Admissible
      (.request .plain "client" (Message.login "client")) :=
    ⟨by decide,by decide,fun _ => Finset.notMem_empty _⟩
  have hlogout : s.Admissible (.request .plain "client" (Message.logout "client")) :=
    ⟨by decide,by decide,fun hdraw => by cases hdraw.1⟩
  have hrun := (Run.start (M := nodeTaskLts .single) rfl).next (NodeStep.task hlogin)
  have hgone : (s.next ctx (.request .plain "client" (Message.logout "client"))).world.clientMap.lookup
      "client" ≠ some 2 := by
    have hm : ctx.nodeType = .Master := rfl
    have he : (s.world.removeUserByClientId "client").state.clientMap.lookup "client" ≠ some 2 := by
      rw [removeUserByClientId_clientMap, AList.lookup_erase]
      exact fun h => by cases h
    simp only [NodeState.next, handleMsgTask_world hm]
    exact he
  exact (no_ghosts rfl (hrun.next (NodeStep.task hlogout))).2.2.2 _ List.mem_cons_self "client" 2 rfl hgone

end GameServer.Server
