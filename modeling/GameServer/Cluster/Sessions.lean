import GameServer.Library.Enrolment
import GameServer.Server.Conservation
import GameServer.Server.MainHandle

/-! # Sessions of the slaves and users of the master

A slave keeps the session of a client and sends the master an `AddUser` at login
and a `DelUser` at logout or expiry. The messages of one slave arrive in order,
but the master handles each in a task of its own.
-/
namespace GameServer.Cluster
open Common CommonServer Library Server

/-- The configurations of a master and its slaves. -/
structure Setup (ι : Type) where
  masterConf : GameServerConf
  slaveConf : ι → GameServerConf
  masterType : masterConf.node.nodeType = .Master
  slaveType : ∀ i, (slaveConf i).node.nodeType = .Slave
  slaveMode : ∀ i, (slaveConf i).app.mode = .Cluster

/-- A server of the cluster: the master, or one of the slaves. -/
abbrev ServerId (ι : Type) := Option ι

namespace Setup
variable {ι : Type} (S : Setup ι)

def conf : ServerId ι → GameServerConf
  | none => S.masterConf
  | some i => S.slaveConf i

def ctx (i : ServerId ι) : ServerContext := ServerContext.run (S.conf i)

def masterCtx : ServerContext := ServerContext.run S.masterConf
def slaveCtx (i : ι) : ServerContext := ServerContext.run (S.slaveConf i)

theorem masterCtx_nodeType : S.masterCtx.nodeType = .Master := S.masterType
theorem slaveCtx_nodeType (i : ι) : (S.slaveCtx i).nodeType = .Slave := S.slaveType i

theorem slaveCtx_alive (i : ι) : (S.slaveCtx i).toMasterSender.alive = true := by
  simp only [slaveCtx, ServerContext.run, S.slaveMode i, S.slaveType i]
  rfl

end Setup

/-- The worlds, the messages on their way to the master, the tasks the master has
spawned, and the ids the generators have returned. -/
structure State (ι : Type) where
  master : World
  slaves : ι → World
  wires : ι → List Message
  tasks : List Message
  used : Finset UserId

inductive Act (ι : Type)
  | request (i : ι) (env : Surroundings) (peerId : PeerIdentity) (msg : Message)
  | expire (i : ι) (clientId : String)
  | deliver (i : ι)
  | run (k : ℕ) (env : Surroundings) (peerId : PeerIdentity)
  | round

namespace State
variable {ι : Type}

def sessionIds (s : State ι) : Set UserId :=
  {id | ∃ i clientId, (s.slaves i).clientMap.lookup clientId = some id}

/-- No message is on its way and no task is pending. -/
def Quiet (s : State ι) : Prop := (∀ i, s.wires i = []) ∧ s.tasks = []

def start (S : Setup ι) : State ι where
  master := World.init S.masterConf
  slaves i := World.init (S.slaveConf i)
  wires _ := []
  tasks := []
  used := ∅

variable [DecidableEq ι]

def handled (s : State ι) (i : ι) (h : Handled) (used : Finset UserId) : State ι :=
  { s with
    slaves := Function.update s.slaves i h.world
    wires := Function.update s.wires i (s.wires i ++ h.toMaster)
    used := used }

def next (S : Setup ι) (s : State ι) : Act ι → State ι
  | .request i env peerId msg =>
    s.handled i (handleMsgTask env (S.slaveCtx i) (s.slaves i) peerId msg)
      (if msg.operation = .Login then insert env.nextId s.used else s.used)
  | .expire i clientId => s.handled i (removeOfflineClient (S.slaveCtx i) (s.slaves i) clientId) s.used
  | .deliver i =>
    match s.wires i with
    | [] => s
    | m :: ms => { s with wires := Function.update s.wires i ms, tasks := s.tasks ++ [m] }
  | .run k env peerId =>
    match s.tasks[k]? with
    | none => s
    | some m =>
      { s with
        master := (handleMsgTask env S.masterCtx s.master peerId m).world
        tasks := s.tasks.eraseIdx k }
  | .round => { s with master := (worldUpdateRound S.masterCtx s.master).state }

/-- Clients log in and out; the id generator returns a new id, the random position is
inside the world. -/
def Admissible (s : State ι) : Act ι → Prop
  | .request _ env _ msg => msg.operation = .Logout ∨
      (msg.operation = .Login ∧ env.nextId ∉ s.used ∧ InWorld env.randPosition)
  | _ => True

/-- A `DelUser` task runs while no `AddUser` task of the same user is pending, and a user
logs in where the master has a map. -/
def Careful (s : State ι) : Act ι → Prop
  | .request _ env _ msg => msg.operation = .Login → ¬ Unmapped env.randPosition
  | .run k _ _ => ∀ m, s.tasks[k]? = some m → m.operation = .DelUser →
      ∀ m' ∈ s.tasks, m'.operation = .AddUser → m'.userId ≠ m.userId
  | _ => True

end State

def lts {ι : Type} [DecidableEq ι] (S : Setup ι) : Lts (State ι) (Act ι) where
  init s := s = State.start S
  step s a t := s.Admissible a ∧ t = s.next S a

/-! ## What a message says about a user -/

def noticeOf (id : UserId) (m : Message) : Option Notice :=
  if m.userId = some id then
    match m.operation with
    | .AddUser => some .join
    | .DelUser => some .leave
    | _ => none
  else none

/-- The notices about one user, in order. -/
def trail (id : UserId) (ms : List Message) : List Notice := ms.filterMap (noticeOf id)

@[simp] theorem trail_nil (id : UserId) : trail id [] = [] := rfl

@[simp] theorem trail_append (id : UserId) (ms ms' : List Message) :
    trail id (ms ++ ms') = trail id ms ++ trail id ms' := List.filterMap_append

theorem exists_of_join_mem {id : UserId} {ms : List Message} (h : .join ∈ trail id ms) :
    ∃ m ∈ ms, m.operation = .AddUser ∧ m.userId = some id := by
  obtain ⟨m,hm,hn⟩ := List.mem_filterMap.mp h
  refine ⟨m,hm,?_⟩
  simp only [noticeOf] at hn
  split at hn
  · rename_i hid
    cases hop : m.operation <;> simp [hop] at hn
    exact ⟨rfl,hid⟩
  · cases hn

/-- A message that adds a user where the master has a map, or deletes one. -/
inductive Carries : Message → UserId → Notice → Prop
  | add {m : Message} {user : User} : m.operation = .AddUser → m.content = some (.user user) →
      m.userId = some user.id → InWorld user.position → ¬ Unmapped user.position →
      user.velocity.direction.isQualsZero = true → Carries m user.id .join
  | del {m : Message} {id : UserId} : m.operation = .DelUser → m.userId = some id → Carries m id .leave

namespace Carries
variable {m : Message} {id id' : UserId} {n : Notice}

theorem noticeOf_eq (h : Carries m id n) (id' : UserId) :
    noticeOf id' m = if id' = id then some n else none := by
  cases h with
  | add hop _ hid _ _ _ =>
    simp only [noticeOf, hop, hid, Option.some.injEq, eq_comm]
  | del hop hid =>
    simp only [noticeOf, hop, hid, Option.some.injEq, eq_comm]

theorem of_mem_singleton (h : Carries m id n) : ∀ m' ∈ [m], ∃ id n, Carries m' id n := by
  intro m' hm'
  obtain rfl := List.mem_singleton.mp hm'
  exact ⟨id,n,h⟩

theorem trail_cons (h : Carries m id n) (ms : List Message) : trail id (m :: ms) = n :: trail id ms := by
  simp [trail, h.noticeOf_eq]

theorem trail_cons_ne (h : Carries m id n) (hne : id' ≠ id) (ms : List Message) :
    trail id' (m :: ms) = trail id' ms := by
  simp [trail, h.noticeOf_eq, hne]

end Carries

/-! ## What a slave's handler does to its sessions -/

/-- No session changes and nothing is sent, or one session begins and the master is told. -/
inductive Begins (w : World) (h : Handled) (id : UserId) : Prop
  | same : h.world.clientMap = w.clientMap → h.toMaster = [] → Begins w h id
  | begins {clientId : String} {m : Message} : w.clientMap.lookup clientId = none →
      h.world.clientMap = w.clientMap.insert clientId id → h.toMaster = [m] → Carries m id .join →
      Begins w h id

/-- No session changes and nothing is sent, or one session ends and the master is told. -/
inductive Ends (w : World) (h : Handled) : Prop
  | same : h.world.clientMap = w.clientMap → h.toMaster = [] → Ends w h
  | ends {clientId : String} {id : UserId} {m : Message} : w.clientMap.lookup clientId = some id →
      h.world.clientMap = w.clientMap.erase clientId → h.toMaster = [m] → Carries m id .leave →
      Ends w h

section
variable {ctx : ServerContext} (hs : ctx.nodeType = .Slave) (ha : ctx.toMasterSender.alive = true)
include hs ha

theorem begins_login (w : World) {env : Surroundings} (hin : InWorld env.randPosition)
    (hn : ¬ Unmapped env.randPosition) (peerId : PeerIdentity) {msg : Message}
    (hop : msg.operation = .Login) : Begins w (handleMsgTask env ctx w peerId msg) env.nextId := by
  simp only [handleMsgTask, hop, handleLogin, hs, ha, if_true]
  cases hl : w.clientMap.lookup msg.clientId with
  | some id => exact Begins.same rfl rfl
  | none =>
    have hc : Carries ((Message.addUser ctx.selfNodeInfo.getKey
        (User.randomWithoutVelocity env.nextId env.randPosition)).setPeerId peerId)
        (User.randomWithoutVelocity env.nextId env.randPosition).id .join :=
      Carries.add rfl rfl rfl hin hn (User.randomWithoutVelocity_still _ _)
    exact Begins.begins hl rfl rfl hc

theorem ends_logout (w : World) (env : Surroundings) (peerId : PeerIdentity) {msg : Message}
    (hop : msg.operation = .Logout) : Ends w (handleMsgTask env ctx w peerId msg) := by
  simp only [handleMsgTask, hop, handleLogout, hs, if_true]
  cases hl : w.clientMap.lookup msg.clientId with
  | none => exact Ends.same rfl rfl
  | some id =>
    simp only [Handled.forward, ha, if_true]
    exact Ends.ends hl rfl rfl (Carries.del rfl rfl)

theorem ends_expire (w : World) (clientId : String) : Ends w (removeOfflineClient ctx w clientId) := by
  simp only [removeOfflineClient, hs]
  cases hl : w.clientMap.lookup clientId with
  | none => exact Ends.same rfl rfl
  | some id =>
    simp only [Handled.forward, ha, if_true]
    exact Ends.ends hl rfl rfl (Carries.del rfl rfl)

end

/-! ## The master's world -/

/-- A valid world whose users stand still, each in a scene and in the index. -/
structure MasterInv (w : World) : Prop where
  valid : w.Valid
  balanced : mapIds w.maps = w.userIds
  still : ∀ tag id u, userAt w.maps tag id = some u → u.velocity.direction.isQualsZero = true

namespace MasterInv
variable {w : World}

theorem init (conf : GameServerConf) : MasterInv (World.init conf) where
  valid := valid_init conf
  balanced := (mapIds_init conf).trans (userIds_init conf).symm
  still tag id u hu := by rw [userAt_init] at hu; cases hu

theorem fresh (h : MasterInv w) {id : UserId} (hid : id ∉ w.userIds) : w.Fresh id := by
  apply fresh_of_notMem hid
  rw [h.balanced]
  exact hid

theorem addUser (h : MasterInv w) {user : User} (hid : user.id ∉ w.userIds)
    (hin : InWorld user.position) (hn : ¬ Unmapped user.position)
    (hstill : user.velocity.direction.isQualsZero = true) : MasterInv (w.addUser user) := by
  have hf := h.fresh hid
  refine ⟨valid_addUser h.valid hf hin,?_,?_⟩
  · ext id
    rw [mapIds_addUser h.valid.toSettled hin, userIds_addUser, h.balanced, and_iff_left hn]
  · intro tag id u hu
    rcases userAt_addUser_cases hf hu with ⟨-,rfl,-⟩ | ⟨-,hu⟩
    · exact hstill
    · exact h.still tag id u hu

theorem removeUser (h : MasterInv w) (i : UserId) :
    MasterInv (w.removeUser i).state ∧
      ∀ id, id ∈ (w.removeUser i).state.userIds ↔ id ∈ w.userIds ∧ id ≠ i := by
  have hstill : ∀ tag id u, userAt (w.removeUser i).state.maps tag id = some u →
      u.velocity.direction.isQualsZero = true := fun tag id u hu =>
    h.still tag id u (userAt_of_removeUser h.valid.toSettled hu).1
  by_cases hi : i ∈ w.userIds
  · have hm : i ∈ mapIds w.maps := by rwa [h.balanced]
    obtain ⟨-,hmaps,husers⟩ := removeUser_of_stored h.valid.toSettled hm
    refine ⟨⟨valid_removeUser h.valid i,?_,hstill⟩,husers⟩
    ext id
    rw [hmaps, husers, h.balanced]
  · have he := removeUser_of_not_stored hi
    rw [he] at hstill ⊢
    refine ⟨⟨h.valid,h.balanced,hstill⟩,fun id => ?_⟩
    constructor
    · intro hid
      refine ⟨hid,?_⟩
      rintro rfl
      exact hi hid
    · exact And.left

/-- A tick leaves users that stand still where they are. -/
theorem update (h : MasterInv w) : MasterInv w.update.state ∧ w.update.state.userIds = w.userIds := by
  obtain ⟨hmaps,husers⟩ := ids_update h.valid
  have hkeep : mapIds w.update.state.maps = mapIds w.maps := by
    ext id
    rw [hmaps]
    constructor
    · rintro ⟨tag,u,hu,-⟩
      exact ⟨tag,u,hu⟩
    · rintro ⟨tag,u,hu⟩
      refine ⟨tag,u,hu,?_⟩
      rw [User.shift_of_still (h.still tag id u hu)]
      apply (pos2mapTag_mem_iff (h.valid.mapsIn tag id u hu)).mp
      rw [h.valid.placed tag id u hu]
      exact h.valid.mem_initTags_of_userAt hu
  refine ⟨⟨valid_update h.valid,husers.symm,?_⟩,husers.trans (hkeep.trans h.balanced)⟩
  intro tag id u hu
  rw [h.valid.update_eq] at hu
  obtain ⟨t,u₀,hu₀,rfl,-⟩ := h.valid.userAt_movedMaps.mp hu
  rw [User.shift_velocity]
  exact h.still t id u₀ hu₀

end MasterInv

end GameServer.Cluster
