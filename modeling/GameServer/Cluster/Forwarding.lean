import GameServer.Server.Alike
import GameServer.Server.Logout
import GameServer.Server.SingleNode
import GameServer.Server.Sync

/-! # A slave with its master, and a single server

A slave turns the requests of its clients into messages to the master and relays the
master's answers. One request after the other, the pair serves its clients like one
server that does everything itself, as long as only clients that are logged in log out.
-/
namespace GameServer.Cluster
open Common CommonServer Library Server

def relay (reply : Message) : Option (PeerIdentity × Message) :=
  reply.clientPeerId.map (fun clientPeerId => (clientPeerId,reply))

/-- A single server, and a master and a slave that replace it. -/
structure Pairing where
  singleConf : GameServerConf
  masterConf : GameServerConf
  slaveConf : GameServerConf
  /-- the identity under which the master's socket knows the slave -/
  socketId : PeerIdentity
  singleType : singleConf.node.nodeType = .Master
  singleMode : singleConf.app.mode = .Single
  masterType : masterConf.node.nodeType = .Master
  slaveType : slaveConf.node.nodeType = .Slave
  slaveMode : slaveConf.app.mode = .Cluster
  basic : masterConf.basic = singleConf.basic

namespace Pairing
variable (P : Pairing)

def singleCtx : ServerContext := ServerContext.run P.singleConf
def masterCtx : ServerContext := ServerContext.run P.masterConf
def slaveCtx : ServerContext := ServerContext.run P.slaveConf

theorem singleCtx_replies : P.singleCtx.toClientSender.alive = true := rfl
theorem masterCtx_replies : P.masterCtx.toClientSender.alive = true := rfl
theorem slaveCtx_replies : P.slaveCtx.toClientSender.alive = true := rfl

theorem slaveCtx_alive : P.slaveCtx.toMasterSender.alive = true := by
  simp only [slaveCtx, ServerContext.run, P.slaveMode, P.slaveType]
  rfl

end Pairing

structure Twins where
  single : NodeState
  master : World
  slave : World

/-- The master enumerates its maps in an order of its own and has a clock of its own. -/
inductive TwinAct
  | request (env : Surroundings) (order : HashMap UserId User → List User) (elapsedMillis : ℕ)
      (peerId : PeerIdentity) (msg : Message)
  | round
  | snapshot (dto : WorldSyncDTO)

def masterEnv (env : Surroundings) (order : HashMap UserId User → List User) (elapsedMillis : ℕ) :
    Surroundings := { env with order := order, elapsedMillis := elapsedMillis }

/-- What a slave and its master leave behind once a request is fully handled. -/
structure Served where
  master : World
  slave : World
  replies : List (PeerIdentity × Message)

/-- The master handled a message of the slave; its answers go back through the slave. -/
def Served.afterMaster (socketId : PeerIdentity) (r : Served) (h : Handled) : Served :=
  { r with
    master := h.world
    replies := r.replies ++ h.toClient.filterMap
      (fun answer => if answer.1 = socketId then relay answer.2 else none) }

namespace Twins
variable (P : Pairing)

def start : Twins where
  single := { world := World.init P.singleConf, used := ∅ }
  master := World.init P.masterConf
  slave := World.init P.slaveConf

/-- A request to the slave, with everything it sets off. -/
def serve (t : Twins) (env : Surroundings) (order : HashMap UserId User → List User) (elapsedMillis : ℕ)
    (peerId : PeerIdentity) (msg : Message) : Served :=
  let atSlave := handleMsgTask env P.slaveCtx t.slave peerId msg
  atSlave.toMaster.foldl (fun r m => r.afterMaster P.socketId
      (handleMsgTask (masterEnv env order elapsedMillis) P.masterCtx r.master P.socketId m))
    { master := t.master, slave := atSlave.world, replies := atSlave.toClient }

def next (t : Twins) : TwinAct → Twins
  | .request env order elapsedMillis peerId msg =>
    { single := t.single.next P.singleCtx (.request env peerId msg)
      master := (t.serve P env order elapsedMillis peerId msg).master
      slave := (t.serve P env order elapsedMillis peerId msg).slave }
  | .round =>
    { single := t.single.next P.singleCtx .round
      master := (worldUpdateRound P.masterCtx t.master).state
      slave := (worldUpdateRound P.slaveCtx t.slave).state }
  | .snapshot dto => { t with slave := (t.slave.syncFromMaster dto).state }

/-- The four requests, with a new id where the request draws one. -/
def Admissible (t : Twins) : TwinAct → Prop
  | .request env order _ _ msg =>
    (msg.operation = .Login ∨ msg.operation = .Logout ∨ msg.operation = .Aoe ∨
      msg.operation = .SetVelocity) ∧
    (t.single.world.Draws msg → env.nextId ∉ t.single.used) ∧ Enumerates env.order ∧ Enumerates order
  | _ => True

/-- Who logs out is logged in, and in a build that checks additions no credit overflows. -/
def Careful (t : Twins) : Option TwinAct → Prop
  | some (.request env _ _ _ msg) =>
    (msg.operation = .Logout → (t.single.world.clientMap.lookup msg.clientId).isSome) ∧
    (msg.operation = .Aoe → ∀ radius money id, msg.content.bind Content.asAoe = some (radius,money) →
      msg.userId = some id → env.overflow = .wraps ∨ t.single.world.CreditsFit id radius money)
  | _ => True

/-- A request the single server answers with one reply to its client gets one from the pair. -/
def Answered (t : Twins) : Option TwinAct → Prop
  | some (.request env order elapsedMillis peerId msg) =>
    (handleMsgTask env P.singleCtx t.single.world peerId msg).toClient.map Prod.fst = [peerId] →
      (t.serve P env order elapsedMillis peerId msg).replies.map Prod.fst = [peerId]
  | _ => True

end Twins

/-- An act of both systems, or new enumeration orders of all hash maps. -/
inductive TwinStep (P : Pairing) : Twins → Option TwinAct → Twins → Prop
  | act {t : Twins} {a : TwinAct} : t.Admissible a → TwinStep P t (some a) (t.next P a)
  | reorder {t : Twins} {w master slave : World} : t.single.world.Same w → t.master.Same master →
      t.slave.Same slave →
      TwinStep P t none { single := { t.single with world := w }, master := master, slave := slave }

def twinLts (P : Pairing) : Lts Twins (Option TwinAct) where
  init t := t = Twins.start P
  step := TwinStep P

/-! ## How a server that owns its world answers -/

/-- The handler did one operation and, unless it panicked, answered its peer once. -/
structure Answers (h : Handled) (o : Outcome Panic World) (peerId : PeerIdentity)
    (clientPeerId : Option String) : Prop where
  world : h.world = o.state
  toMaster : h.toMaster = []
  toClient : ∃ reply : Message, reply.clientPeerId = clientPeerId ∧
    h.toClient = if o.panic = none then [(peerId,reply)] else []

def aoeOf (env : Surroundings) (w : World) (msg : Message) : Outcome Panic World :=
  match msg.content.bind Content.asAoe with
  | none => Outcome.fail w .badContent
  | some (radius,money) =>
    match msg.userId with
    | none => Outcome.fail w .userIdMissing
    | some userId => w.aoe env.overflow env.order userId radius money

def setVelocityOf (w : World) (msg : Message) : Outcome Panic World :=
  match msg.content.bind Content.asVelocity with
  | none => Outcome.fail w .badContent
  | some velocity =>
    match msg.userId with
    | none => Outcome.fail w .userIdMissing
    | some userId => Outcome.ok (w.setVelocity userId velocity)

theorem answers_panicked (w : World) (e : Panic) (peerId : PeerIdentity) (clientPeerId : Option String) :
    Answers (Handled.panicked w e) (Outcome.fail w e) peerId clientPeerId :=
  ⟨rfl,rfl,(Message.resp "").setPeerIdOpt clientPeerId,rfl,rfl⟩

section
variable {ctx : ServerContext} (ha : ctx.toClientSender.alive = true)
include ha

theorem answers_after (o : Outcome Panic World) (peerId : PeerIdentity) (reply : Message) :
    Answers (Handled.after o (fun w => Handled.reply ctx w peerId reply)) o peerId reply.clientPeerId := by
  unfold Handled.after Handled.reply
  cases hp : o.panic with
  | none =>
    simp only [ha, if_true]
    exact ⟨rfl,rfl,reply,rfl,by rw [if_pos hp]⟩
  | some e => exact ⟨rfl,rfl,reply,rfl,by simp [Handled.panicked, hp]⟩

theorem answers_reply (w : World) (peerId : PeerIdentity) (reply : Message) :
    Answers (Handled.reply ctx w peerId reply) (Outcome.ok w) peerId reply.clientPeerId :=
  answers_after ha (Outcome.ok w) peerId reply

theorem answers_doAoeInSelfWorld (env : Surroundings) (w : World) (peerId : PeerIdentity) (msg : Message) :
    Answers (doAoeInSelfWorld env ctx w peerId msg) (aoeOf env w msg) peerId msg.clientPeerId := by
  unfold doAoeInSelfWorld aoeOf
  cases msg.content.bind Content.asAoe with
  | none => exact answers_panicked w .badContent peerId _
  | some c =>
    cases msg.userId with
    | none => exact answers_panicked w .userIdMissing peerId _
    | some userId => exact answers_after ha _ peerId _

theorem answers_doSetVelocityInSelfWorld (w : World) (peerId : PeerIdentity) (msg : Message) :
    Answers (doSetVelocityInSelfWorld ctx w peerId msg) (setVelocityOf w msg) peerId msg.clientPeerId := by
  unfold doSetVelocityInSelfWorld setVelocityOf
  cases msg.content.bind Content.asVelocity with
  | none => exact answers_panicked w .badContent peerId _
  | some velocity =>
    cases msg.userId with
    | none => exact answers_panicked w .userIdMissing peerId _
    | some userId => exact answers_reply ha _ peerId _

variable (hm : ctx.nodeType = .Master) (env : Surroundings) (w : World) (peerId : PeerIdentity)
  {msg : Message}

theorem answers_login_again (hop : msg.operation = .Login) {id : UserId}
    (hl : w.clientMap.lookup msg.clientId = some id) :
    (handleMsgTask env ctx w peerId msg).world = w ∧
    (handleMsgTask env ctx w peerId msg).toMaster = [] ∧
    (handleMsgTask env ctx w peerId msg).toClient = [(peerId,Message.resp "user has logined")] := by
  simp only [handleMsgTask, hop, handleLogin, hl, Option.isSome_some, if_true, ha]
  exact ⟨rfl,rfl,trivial⟩

include hm

theorem answers_login (hop : msg.operation = .Login) (hl : w.clientMap.lookup msg.clientId = none) :
    Answers (handleMsgTask env ctx w peerId msg)
      (Outcome.ok ({ w with clientMap := w.clientMap.insert msg.clientId env.nextId }.addUser
        (User.randomWithoutVelocity env.nextId env.randPosition))) peerId none := by
  simp only [handleMsgTask, hop, handleLogin, hl, hm, Option.isSome_none, Bool.false_eq_true, if_false,
    reduceCtorEq]
  exact answers_reply ha _ peerId _

theorem answers_logout (hop : msg.operation = .Logout) :
    Answers (handleMsgTask env ctx w peerId msg) (w.removeUserByClientId msg.clientId) peerId none := by
  simp only [handleMsgTask, hop, handleLogout, hm, reduceCtorEq, if_false]
  exact answers_after ha _ peerId _

theorem answers_aoe (hop : msg.operation = .Aoe) :
    Answers (handleMsgTask env ctx w peerId msg) (aoeOf env w msg) peerId msg.clientPeerId := by
  have hns : (ctx.nodeType == NodeType.Slave) = false := by rw [hm]; rfl
  simp only [handleMsgTask, hop, hns, handleOperation, Bool.false_eq_true, if_false, ite_self]
  exact answers_doAoeInSelfWorld ha env w peerId msg

theorem answers_setVelocity (hop : msg.operation = .SetVelocity) :
    Answers (handleMsgTask env ctx w peerId msg) (setVelocityOf w msg) peerId msg.clientPeerId := by
  have hns : (ctx.nodeType == NodeType.Slave) = false := by rw [hm]; rfl
  simp only [handleMsgTask, hop, hns, handleOperation, Bool.false_eq_true, if_false, ite_self]
  exact answers_doSetVelocityInSelfWorld ha w peerId msg

omit hm

theorem answers_addUser (hop : msg.operation = .AddUser) {user : User}
    (hc : msg.content.bind Content.asUser = some user) :
    Answers (handleMsgTask env ctx w peerId msg) (Outcome.ok (w.addUser user)) peerId msg.clientPeerId := by
  simp only [handleMsgTask, hop, handleAddUser, hc]
  exact answers_reply ha _ peerId _

theorem answers_delUser (hop : msg.operation = .DelUser) {id : UserId} (hid : msg.userId = some id) :
    Answers (handleMsgTask env ctx w peerId msg) (w.removeUser id) peerId msg.clientPeerId := by
  simp only [handleMsgTask, hop, handleDelUser, hid]
  exact answers_after ha _ peerId _

end

/-! ## What a slave does with a request -/

/-- The slave changed nothing but its session table and passed one message on. -/
structure Forwards (w : World) (h : Handled) (clientMap : HashMap String UserId) (m : Message) : Prop where
  world : h.world = { w with clientMap := clientMap }
  toMaster : h.toMaster = [m]
  toClient : h.toClient = []

section
variable {ctx : ServerContext} (hs : ctx.nodeType = .Slave) (ha : ctx.toMasterSender.alive = true)
  (env : Surroundings) (w : World) (peerId : PeerIdentity) {msg : Message}
include hs ha

theorem forwards_login (hop : msg.operation = .Login) (hl : w.clientMap.lookup msg.clientId = none) :
    Forwards w (handleMsgTask env ctx w peerId msg) (w.clientMap.insert msg.clientId env.nextId)
      ((Message.addUser ctx.selfNodeInfo.getKey
        (User.randomWithoutVelocity env.nextId env.randPosition)).setPeerId peerId) := by
  simp only [handleMsgTask, hop, handleLogin, hl, hs, ha, Option.isSome_none, Bool.false_eq_true, if_false,
    if_true]
  exact ⟨rfl,rfl,rfl⟩

theorem forwards_logout (hop : msg.operation = .Logout) {id : UserId}
    (hl : w.clientMap.lookup msg.clientId = some id) :
    Forwards w (handleMsgTask env ctx w peerId msg) (w.clientMap.erase msg.clientId)
      ((Message.delUser ctx.selfNodeInfo.getKey id).setPeerId peerId) := by
  simp only [handleMsgTask, hop, handleLogout, hl, hs, ha, Handled.forward, if_true]
  exact ⟨rfl,rfl,rfl⟩

theorem forwards_operation (hmode : ctx.mode = .Cluster)
    (hop : msg.operation = .Aoe ∨ msg.operation = .SetVelocity) :
    Forwards w (handleMsgTask env ctx w peerId msg) w.clientMap
      { msg.setPeerId peerId with clientId := ctx.selfNodeInfo.getKey } := by
  have hsl : (ctx.nodeType == NodeType.Slave) = true := by rw [hs]; rfl
  have hcl : (ctx.mode == Mode.Cluster) = true := by rw [hmode]; rfl
  rcases hop with hop | hop
  · simp only [handleMsgTask, hop, hsl, hcl, handleOperation, redirectMsgToMaster, Handled.forward, ha,
      if_true]
    exact ⟨rfl,rfl,rfl⟩
  · simp only [handleMsgTask, hop, hsl, hcl, handleOperation, redirectMsgToMaster, Handled.forward, ha,
      if_true]
    exact ⟨rfl,rfl,rfl⟩

omit ha

theorem panicked_logout (hop : msg.operation = .Logout) (hl : w.clientMap.lookup msg.clientId = none) :
    handleMsgTask env ctx w peerId msg = Handled.panicked w .clientNotLoggedIn := by
  simp only [handleMsgTask, hop, handleLogout, hl, hs, if_true]

end

/-! ## One request to both systems -/

/-- The pair has done what the single server did. -/
structure Matches (h : Handled) (r : Served) (peerId : PeerIdentity) : Prop where
  alike : h.world.Alike r.master
  clients : ∀ clientId, r.slave.clientMap.lookup clientId = h.world.clientMap.lookup clientId
  answered : h.toClient.map Prod.fst = [peerId] → r.replies.map Prod.fst = [peerId]

/-- What holds between the two systems after every request. -/
structure Twins.Inv (t : Twins) : Prop where
  owned : t.single.world.Owned t.single.used
  alike : t.single.world.Alike t.master
  clients : ∀ clientId, t.slave.clientMap.lookup clientId = t.single.world.clientMap.lookup clientId

section
variable {P : Pairing} {t : Twins} {env : Surroundings} {order : HashMap UserId User → List User}
  {elapsedMillis : ℕ} {peerId : PeerIdentity} {msg : Message}

theorem serve_of_forwards {clientMap : HashMap String UserId} {m : Message} {o : Outcome Panic World}
    (hf : Forwards t.slave (handleMsgTask env P.slaveCtx t.slave peerId msg) clientMap m)
    (hg : Answers (handleMsgTask (masterEnv env order elapsedMillis) P.masterCtx t.master P.socketId m) o
      P.socketId (some peerId)) :
    (t.serve P env order elapsedMillis peerId msg).master = o.state ∧
    (t.serve P env order elapsedMillis peerId msg).slave = { t.slave with clientMap := clientMap } ∧
    (t.serve P env order elapsedMillis peerId msg).replies.map Prod.fst =
      if o.panic = none then [peerId] else [] := by
  obtain ⟨reply,hback,hclient⟩ := hg.toClient
  unfold Twins.serve
  simp only [hf.toMaster, hf.toClient, hf.world, List.foldl_cons, List.foldl_nil, Served.afterMaster,
    hg.world, hclient, List.nil_append]
  refine ⟨trivial,trivial,?_⟩
  cases o.panic with
  | none => simp [relay, hback]
  | some e => simp

theorem serve_of_stays (h : (handleMsgTask env P.slaveCtx t.slave peerId msg).toMaster = []) :
    t.serve P env order elapsedMillis peerId msg =
      { master := t.master
        slave := (handleMsgTask env P.slaveCtx t.slave peerId msg).world
        replies := (handleMsgTask env P.slaveCtx t.slave peerId msg).toClient } := by
  unfold Twins.serve
  simp only [h, List.foldl_nil]

/-- A request that the slave passes on and the master carries out as the single server does. -/
theorem matches_of_forwards {clientMap : HashMap String UserId} {m : Message} {o o' : Outcome Panic World}
    {back : Option String} (hh : Answers (handleMsgTask env P.singleCtx t.single.world peerId msg) o peerId back)
    (hf : Forwards t.slave (handleMsgTask env P.slaveCtx t.slave peerId msg) clientMap m)
    (hg : Answers (handleMsgTask (masterEnv env order elapsedMillis) P.masterCtx t.master P.socketId m) o'
      P.socketId (some peerId))
    (ho : AlikeOutcomes o o') (hc : ∀ c, clientMap.lookup c = o.state.clientMap.lookup c) :
    Matches (handleMsgTask env P.singleCtx t.single.world peerId msg)
      (t.serve P env order elapsedMillis peerId msg) peerId := by
  obtain ⟨hmaster,hslave,hreplies⟩ := serve_of_forwards hf hg
  refine ⟨?_,?_,?_⟩
  · rw [hh.world, hmaster]
    exact ho.state
  · intro c
    rw [hh.world, hslave]
    exact hc c
  · obtain ⟨reply,-,hclient⟩ := hh.toClient
    rw [hclient, hreplies, ho.panic]
    cases o.panic with
    | none => exact fun _ => rfl
    | some e => exact fun h => by simp at h

theorem matches_login (h : t.Inv) (hop : msg.operation = .Login)
    (hnew : t.single.world.Draws msg → env.nextId ∉ t.single.used) :
    Matches (handleMsgTask env P.singleCtx t.single.world peerId msg)
      (t.serve P env order elapsedMillis peerId msg) peerId := by
  have hclient := h.clients msg.clientId
  cases hl : t.single.world.clientMap.lookup msg.clientId with
  | some id =>
    rw [hl] at hclient
    obtain ⟨hw,-,hr⟩ := answers_login_again P.singleCtx_replies env t.single.world peerId hop hl
    obtain ⟨hw',hto,hr'⟩ := answers_login_again P.slaveCtx_replies env t.slave peerId hop hclient
    rw [serve_of_stays hto, hw', hr']
    exact ⟨hw.symm ▸ h.alike,hw.symm ▸ h.clients,fun _ => rfl⟩
  | none =>
    rw [hl] at hclient
    have hout : env.nextId ∉ t.single.world.userIds := fun hin =>
      hnew ⟨hop,hl⟩ (h.owned.users env.nextId hin)
    have hfresh := fresh_of_not_stored h.owned.settled hout
    have halike : ({ t.single.world with
          clientMap := t.single.world.clientMap.insert msg.clientId env.nextId }.addUser
        (User.randomWithoutVelocity env.nextId env.randPosition)).Alike
        (t.master.addUser (User.randomWithoutVelocity env.nextId env.randPosition)) :=
      (h.alike.clientMap _ t.master.clientMap).addUser hfresh
    refine matches_of_forwards
      (answers_login P.singleCtx_replies P.singleType env t.single.world peerId hop hl)
      (forwards_login P.slaveType P.slaveCtx_alive env t.slave peerId hop hclient)
      (answers_addUser P.masterCtx_replies _ t.master P.socketId rfl rfl) halike.ok ?_
    intro c
    show (t.slave.clientMap.insert msg.clientId env.nextId).lookup c =
      (t.single.world.clientMap.insert msg.clientId env.nextId).lookup c
    rw [AList.lookup_insert_eq, AList.lookup_insert_eq, h.clients]

theorem matches_logout (h : t.Inv) (hop : msg.operation = .Logout) {id : UserId}
    (hl : t.single.world.clientMap.lookup msg.clientId = some id) :
    Matches (handleMsgTask env P.singleCtx t.single.world peerId msg)
      (t.serve P env order elapsedMillis peerId msg) peerId := by
  have hclient := (h.clients msg.clientId).trans hl
  have halike : AlikeOutcomes (t.single.world.removeUserByClientId msg.clientId) (t.master.removeUser id) := by
    rw [removeUserByClientId_of_some hl]
    exact (h.alike.clientMap _ t.master.clientMap).removeUser id
  refine matches_of_forwards
    (answers_logout P.singleCtx_replies P.singleType env t.single.world peerId hop)
    (forwards_logout P.slaveType P.slaveCtx_alive env t.slave peerId hop hclient)
    (answers_delUser P.masterCtx_replies _ t.master P.socketId rfl rfl) halike ?_
  intro c
  rw [removeUserByClientId_clientMap, AList.lookup_erase_eq, AList.lookup_erase_eq, h.clients]

theorem matches_aoe (h : t.Inv) (hop : msg.operation = .Aoe) (ho : Enumerates env.order)
    (ho' : Enumerates order) (hc : t.Careful (some (.request env order elapsedMillis peerId msg))) :
    Matches (handleMsgTask env P.singleCtx t.single.world peerId msg)
      (t.serve P env order elapsedMillis peerId msg) peerId := by
  have halike : AlikeOutcomes (aoeOf env t.single.world msg)
      (aoeOf (masterEnv env order elapsedMillis) t.master
        { msg.setPeerId peerId with clientId := P.slaveCtx.selfNodeInfo.getKey }) := by
    have hfits := hc.2 hop
    unfold aoeOf
    simp only [Message.setPeerId, masterEnv]
    cases hcont : msg.content.bind Content.asAoe with
    | none => exact ⟨h.alike,rfl⟩
    | some c =>
      cases huid : msg.userId with
      | none => exact ⟨h.alike,rfl⟩
      | some userId => exact h.alike.aoe ho ho' userId c.1 c.2 (hfits c.1 c.2 userId hcont huid)
  refine matches_of_forwards
    (answers_aoe P.singleCtx_replies P.singleType env t.single.world peerId hop)
    (forwards_operation P.slaveType P.slaveCtx_alive env t.slave peerId P.slaveMode (Or.inl hop))
    (answers_aoe P.masterCtx_replies P.masterType _ t.master P.socketId hop) halike ?_
  intro c
  rw [h.clients]
  unfold aoeOf
  cases msg.content.bind Content.asAoe with
  | none => rfl
  | some c =>
    cases msg.userId with
    | none => rfl
    | some userId =>
      dsimp only
      rw [aoe_clientMap]

theorem matches_setVelocity (h : t.Inv) (hop : msg.operation = .SetVelocity) :
    Matches (handleMsgTask env P.singleCtx t.single.world peerId msg)
      (t.serve P env order elapsedMillis peerId msg) peerId := by
  have halike : AlikeOutcomes (setVelocityOf t.single.world msg)
      (setVelocityOf t.master { msg.setPeerId peerId with clientId := P.slaveCtx.selfNodeInfo.getKey }) := by
    unfold setVelocityOf
    simp only [Message.setPeerId]
    cases msg.content.bind Content.asVelocity with
    | none => exact ⟨h.alike,rfl⟩
    | some velocity =>
      cases msg.userId with
      | none => exact ⟨h.alike,rfl⟩
      | some userId => exact (h.alike.setVelocity userId velocity).ok
  refine matches_of_forwards
    (answers_setVelocity P.singleCtx_replies P.singleType env t.single.world peerId hop)
    (forwards_operation P.slaveType P.slaveCtx_alive env t.slave peerId P.slaveMode (Or.inr hop))
    (answers_setVelocity P.masterCtx_replies P.masterType _ t.master P.socketId hop) halike ?_
  intro c
  rw [h.clients]
  unfold setVelocityOf
  cases msg.content.bind Content.asVelocity with
  | none => rfl
  | some velocity =>
    cases msg.userId with
    | none => rfl
    | some userId =>
      dsimp only
      rw [Outcome.ok_state, setVelocity_clientMap]

theorem matches_request (h : t.Inv)
    (ha : t.Admissible (.request env order elapsedMillis peerId msg))
    (hc : t.Careful (some (.request env order elapsedMillis peerId msg))) :
    Matches (handleMsgTask env P.singleCtx t.single.world peerId msg)
      (t.serve P env order elapsedMillis peerId msg) peerId := by
  obtain ⟨hop,hnew,ho,ho'⟩ := ha
  rcases hop with hop | hop | hop | hop
  · exact matches_login h hop hnew
  · obtain ⟨id,hl⟩ := Option.isSome_iff_exists.mp (hc.1 hop)
    exact matches_logout h hop hl
  · exact matches_aoe h hop ho ho' hc
  · exact matches_setVelocity h hop

/-- A logout of a client without a session is answered by the single server only. -/
theorem not_answered_logout (h : t.Inv) (hop : msg.operation = .Logout)
    (hl : t.single.world.clientMap.lookup msg.clientId = none) :
    ¬ t.Answered P (some (.request env order elapsedMillis peerId msg)) := by
  intro hans
  have hs : handleMsgTask env P.slaveCtx t.slave peerId msg =
      Handled.panicked t.slave .clientNotLoggedIn :=
    panicked_logout P.slaveType env t.slave peerId hop ((h.clients msg.clientId).trans hl)
  obtain ⟨reply,-,hclient⟩ :=
    (answers_logout P.singleCtx_replies P.singleType env t.single.world peerId hop).toClient
  rw [removeUserByClientId_of_none hl, Outcome.ok_panic, if_pos rfl] at hclient
  have hto : (handleMsgTask env P.slaveCtx t.slave peerId msg).toMaster = [] := by rw [hs]; rfl
  have hone : (t.serve P env order elapsedMillis peerId msg).replies.map Prod.fst = [peerId] := by
    apply hans
    rw [hclient]
    rfl
  rw [serve_of_stays hto, hs] at hone
  cases hone

end

/-! ## Whole runs -/

namespace Twins.Inv
variable {P : Pairing} {t : Twins}

theorem start : (Twins.start P).Inv where
  owned := owned_init P.singleConf
  alike := alike_init P.basic
  clients _ := rfl

/-- A careful step keeps the two systems alike, and its request is answered. -/
theorem step {u : Twins} {a : Option TwinAct} (h : t.Inv) (hc : t.Careful a) (hs : TwinStep P t a u) :
    u.Inv ∧ t.Answered P a := by
  cases hs with
  | @act a ha =>
    cases a with
    | request env order elapsedMillis peerId msg =>
      have hm : Matches (handleMsgTask env P.singleCtx t.single.world peerId msg)
          (t.serve P env order elapsedMillis peerId msg) peerId := matches_request h ha hc
      have hadm : t.single.Admissible (.request env peerId msg) := by
        refine ⟨?_,?_,ha.2.1⟩
        · rcases ha.1 with hop | hop | hop | hop <;> simp [hop]
        · rcases ha.1 with hop | hop | hop | hop <;> simp [hop]
      exact ⟨⟨(owned_next P.singleType h.owned hadm).1,hm.alike,hm.clients⟩,hm.answered⟩
    | round =>
      have hset := h.owned.settled
      have hslave : worldUpdateRound P.slaveCtx t.slave = Outcome.ok t.slave := by
        have hmode : P.slaveCtx.mode = .Cluster := P.slaveMode
        have htype : P.slaveCtx.nodeType = .Slave := P.slaveType
        simp only [worldUpdateRound, hmode, htype, if_true]
      have hst : P.singleCtx.nodeType = .Master := P.singleType
      have hmt : P.masterCtx.nodeType = .Master := P.masterType
      have hsingle := worldUpdateRound_of_master hst t.single.world
      have hmaster := worldUpdateRound_of_master hmt t.master
      have hadm : t.single.Admissible .round := trivial
      refine ⟨⟨(owned_next P.singleType h.owned hadm).1,?_,?_⟩,trivial⟩
      · simp only [Twins.next, NodeState.next, hsingle, hmaster]
        exact h.alike.update.state
      · intro c
        simp only [Twins.next, NodeState.next, hsingle, hslave, hset.update_eq]
        exact h.clients c
    | snapshot dto =>
      refine ⟨⟨h.owned,h.alike,?_⟩,trivial⟩
      intro c
      simp only [Twins.next, syncFromMaster_clientMap]
      exact h.clients c
  | reorder hw hmaster hslave =>
    refine ⟨⟨h.owned.same hw,h.alike.same hw hmaster,?_⟩,trivial⟩
    intro c
    rw [← hslave.clientMap c, ← hw.clientMap c]
    exact h.clients c

end Twins.Inv

theorem inv_of_careful {P : Pairing} {past : List (Twins × Option TwinAct)} {t : Twins}
    (h : Run (twinLts P) past t) (hc : ∀ p ∈ past, p.1.Careful p.2) :
    t.Inv ∧ ∀ p ∈ past, p.1.Answered P p.2 := by
  induction h with
  | start ht =>
    obtain rfl := ht
    exact ⟨Twins.Inv.start,fun p hp => by cases hp⟩
  | next _ hst ih =>
    obtain ⟨hca,hcp⟩ := List.forall_mem_cons.mp hc
    obtain ⟨hi,hans⟩ := ih hcp
    obtain ⟨hi',ha⟩ := hi.step hca hst
    exact ⟨hi',List.forall_mem_cons.mpr ⟨ha,hans⟩⟩

/-- Along a run of careful requests, the master holds the users of the single server, the
slave holds its sessions, and every request it answers is answered; what the next request
may not be is the logout of a client without a session. -/
theorem pair_refines_single {P : Pairing} {past : List (Twins × Option TwinAct)} {t : Twins}
    (h : Run (twinLts P) past t) (hc : ∀ p ∈ past, p.1.Careful p.2) :
    (∀ tag id, userAt t.master.maps tag id = userAt t.single.world.maps tag id) ∧
    (∀ id, t.master.users.lookup id = t.single.world.users.lookup id) ∧
    (∀ clientId, t.slave.clientMap.lookup clientId = t.single.world.clientMap.lookup clientId) ∧
    (∀ p ∈ past, p.1.Answered P p.2) ∧
    ∀ env order elapsedMillis peerId msg, msg.operation = .Logout →
      t.single.world.clientMap.lookup msg.clientId = none →
      ¬ t.Answered P (some (.request env order elapsedMillis peerId msg)) := by
  obtain ⟨hi,hans⟩ := inv_of_careful h hc
  exact ⟨hi.alike.maps,hi.alike.users,hi.clients,hans,
    fun env order elapsedMillis peerId msg hop hl => not_answered_logout hi hop hl⟩

/-- The servers of `single.toml`, `conf.toml` and `slave1.toml`. -/
def exampleServers : Pairing where
  singleConf := .single
  masterConf := .master
  slaveConf := .slave
  socketId := "67e55044-10b1-426f-9247-bb680e5fe0c8"
  singleType := GameServerConf.single_nodeType
  singleMode := GameServerConf.single_mode
  masterType := GameServerConf.master_nodeType
  slaveType := GameServerConf.slave_nodeType
  slaveMode := GameServerConf.slave_mode
  basic := rfl

/-- Two clients log in, the first one pays those around it, the world ticks, and the second one
sets its velocity and logs out. -/
def evening : List TwinAct :=
  [.request .plain AList.values 0 "client" (Message.login "client"),
    .request .guest AList.values 0 "guest" (Message.login "guest"),
    .request .plain AList.values 0 "client" (Message.aoe "client" 2 10 5),.round,
    .request .plain AList.values 0 "guest" (Message.setVelocity "guest" 3 (Velocity.new (Vector2.new 1 0) 4)),
    .request .plain AList.values 0 "guest" (Message.logout "guest")]

theorem careful_evening :
    Run.Allowed (Twins.next exampleServers) (fun t a => t.Admissible a ∧ t.Careful (some a))
      (Twins.start exampleServers) evening := by
  have hnew : Surroundings.guest.nextId ∉ ((evening.take 1).foldl (Twins.next exampleServers)
      (Twins.start exampleServers)).single.used := by decide +kernel
  have hpoor : ∀ map ∈ ((evening.take 2).foldl (Twins.next exampleServers)
      (Twins.start exampleServers)).single.world.maps.values,
      ∀ u ∈ map.scenes.users.values, u.money.toNat + (5 : UInt64).toNat < 2 ^ 64 := by decide +kernel
  have hin : (((evening.take 5).foldl (Twins.next exampleServers)
      (Twins.start exampleServers)).single.world.clientMap.lookup "guest").isSome := by decide +kernel
  refine ⟨⟨⟨Or.inl rfl,fun _ => Finset.notMem_empty _,enumerates_values,enumerates_values⟩,?_,?_⟩,
    ⟨⟨Or.inl rfl,fun _ => hnew,enumerates_values,enumerates_values⟩,?_,?_⟩,
    ⟨⟨Or.inr (Or.inr (Or.inl rfl)),?_,enumerates_values,enumerates_values⟩,?_,?_⟩,⟨trivial,trivial⟩,
    ⟨⟨Or.inr (Or.inr (Or.inr rfl)),?_,enumerates_values,enumerates_values⟩,?_,?_⟩,
    ⟨⟨Or.inr (Or.inl rfl),?_,enumerates_values,enumerates_values⟩,fun _ => hin,?_⟩,trivial⟩
  · exact fun h => by cases h
  · exact fun h => by cases h
  · exact fun h => by cases h
  · exact fun h => by cases h
  · exact fun h => by cases h.1
  · exact fun h => by cases h
  · intro _ radius money id hc hid
    cases hc
    cases hid
    exact Or.inr (creditsFit_of_values hpoor)
  · exact fun h => by cases h.1
  · exact fun h => by cases h
  · exact fun h => by cases h
  · exact fun h => by cases h.1
  · exact fun h => by cases h

theorem pair_refines_single_evening : ∃ past t, Run (twinLts exampleServers) past t ∧
    past.map Prod.snd = (evening.map some).reverse ∧
    (∀ tag id, userAt t.master.maps tag id = userAt t.single.world.maps tag id) ∧
    ∀ p ∈ past, p.1.Answered exampleServers p.2 := by
  have hrun := Run.of_start (M := twinLts exampleServers) (Twins.next exampleServers) _ some
    (fun _ _ h => TwinStep.act h.1) rfl careful_evening
  obtain ⟨hmaps,-,-,hans,-⟩ := pair_refines_single hrun
    (Run.forall_record (P := Twins.Careful) (fun _ _ h => h.2) careful_evening)
  exact ⟨_,_,hrun,rfl,hmaps,hans⟩

/-- A client that never logged in logs out. -/
theorem logout_without_session_unanswered : ∃ past t, Run (twinLts exampleServers) past t ∧
    ∃ p ∈ past, ¬ p.1.Answered exampleServers p.2 := by
  have ha : (Twins.start exampleServers).Admissible
      (.request .plain AList.values 0 "client" (Message.logout "client")) :=
    ⟨Or.inr (Or.inl rfl),fun _ => Finset.notMem_empty _,enumerates_values,enumerates_values⟩
  have hrun : Run (twinLts exampleServers) [] (Twins.start exampleServers) := Run.start rfl
  refine ⟨_,_,hrun.next (TwinStep.act ha),_,List.mem_cons_self,?_⟩
  exact not_answered_logout Twins.Inv.start rfl rfl

end GameServer.Cluster
