import GameServer.Common.Message
import GameServer.Server.Sync

/-! # Handling one message of the main channel

A handler holds the context lock from its first to its last line, so it is one
step. It returns the world it leaves, what it sent, and the panic, if any; what
it does to the world is a short list of world operations.
-/
namespace GameServer.Server
open Common Library

/-- The sending half of a channel; sending fails once the receiver is gone. -/
structure Sender where
  alive : Bool

structure ServerContext where
  mode : Mode
  selfNodeInfo : NodeInfo
  nodeType : NodeType
  masterNode : NodeInfo
  toClientSender : Sender
  toMasterSender : Sender
  toRegistryCenterSender : Sender

/-- The context before any channel is set up: every receiver is dropped. -/
def ServerContext.newByConfig (conf : GameServerConf) : ServerContext where
  mode := conf.app.mode
  selfNodeInfo := conf.node
  nodeType := conf.node.nodeType
  masterNode := conf.node
  toClientSender := { alive := false }
  toMasterSender := { alive := false }
  toRegistryCenterSender := { alive := false }

/-- The context once `run` is through: `do_in_cluster_mode` and `do_slave` have
opened the channels a node of this mode and type uses. -/
def ServerContext.run (conf : GameServerConf) : ServerContext :=
  { ServerContext.newByConfig conf with
    toClientSender := { alive := true }
    toRegistryCenterSender := { alive := conf.app.mode == .Cluster }
    toMasterSender := { alive := conf.app.mode == .Cluster && conf.node.nodeType == .Slave } }

/-- What a handler takes from its surroundings: the id generator, the random
position, the clock, the build, and the iteration order of a hash map. -/
structure Surroundings where
  nextId : UserId
  randPosition : Vector2
  elapsedMillis : ℕ
  overflow : Overflow
  order : HashMap UserId User → List User

def Surroundings.plain : Surroundings where
  nextId := 2
  randPosition := Vector2.new 5 7
  elapsedMillis := 0
  overflow := .panics
  order := AList.values

def Surroundings.guest : Surroundings := { Surroundings.plain with nextId := 3, randPosition := Vector2.new 8 7 }

structure Handled where
  world : World
  toClient : List (PeerIdentity × Message)
  toMaster : List Message
  panic : Option Panic

namespace Handled

def done (world : World) : Handled :=
  { world := world, toClient := [], toMaster := [], panic := none }

def panicked (world : World) (e : Panic) : Handled :=
  { world := world, toClient := [], toMaster := [], panic := some e }

/-- `to_client_sender.send(..).await.unwrap()` as the last action -/
def reply (ctx : ServerContext) (world : World) (peerId : PeerIdentity) (msg : Message) : Handled :=
  if ctx.toClientSender.alive then { done world with toClient := [(peerId,msg)] }
  else panicked world .channelClosed

/-- `to_master_sender.send(..).await.unwrap()` as the last action -/
def forward (ctx : ServerContext) (world : World) (msg : Message) : Handled :=
  if ctx.toMasterSender.alive then { done world with toMaster := [msg] }
  else panicked world .channelClosed

/-- Go on unless the world operation panicked. -/
def after (o : Outcome Panic World) (next : World → Handled) : Handled :=
  match o.panic with
  | some e => panicked o.state e
  | none => next o.state

@[simp] theorem done_world (w : World) : (done w).world = w := rfl
@[simp] theorem panicked_world (w : World) (e : Panic) : (panicked w e).world = w := rfl

@[simp] theorem reply_world (ctx : ServerContext) (w : World) (peerId : PeerIdentity) (msg : Message) :
    (reply ctx w peerId msg).world = w := by
  unfold reply
  split <;> rfl

@[simp] theorem forward_world (ctx : ServerContext) (w : World) (msg : Message) :
    (forward ctx w msg).world = w := by
  unfold forward
  split <;> rfl

theorem after_world {o : Outcome Panic World} {next : World → Handled}
    (h : ∀ w, (next w).world = w) : (after o next).world = o.state := by
  unfold after
  split
  · rfl
  · exact h _

end Handled

section
variable (env : Surroundings) (ctx : ServerContext) (world : World) (peerId : PeerIdentity)

/-- `redirect_msg_to_master`, to which `do_aoe_in_slave` and `do_set_velocity_in_slave` come down -/
def redirectMsgToMaster (msg : Message) (clientId : String) : Handled :=
  Handled.forward ctx world { msg with clientId := clientId }

def doSetVelocityInSelfWorld (msg : Message) : Handled :=
  match msg.content.bind Content.asVelocity with
  | none => Handled.panicked world .badContent
  | some velocity =>
    match msg.userId with
    | none => Handled.panicked world .userIdMissing
    | some userId => Handled.reply ctx (world.setVelocity userId velocity) peerId
        ((Message.resp "set_velocity reply").setPeerIdOpt msg.clientPeerId)

def doAoeInSelfWorld (msg : Message) : Handled :=
  match msg.content.bind Content.asAoe with
  | none => Handled.panicked world .badContent
  | some (radius,money) =>
    match msg.userId with
    | none => Handled.panicked world .userIdMissing
    | some userId =>
      Handled.after (world.aoe env.overflow env.order userId radius money) (fun world =>
        Handled.reply ctx world peerId
          ((Message.resp ("aoe reply,aoe response time:" ++ toString env.elapsedMillis)).setPeerIdOpt
            msg.clientPeerId))

def handleOperation (isCluster isSlave : Bool) (doInSelfWorld doInSlave : Handled) : Handled :=
  if isCluster then if isSlave then doInSlave else doInSelfWorld else doInSelfWorld

def handleLogin (msg : Message) : Handled :=
  if (world.clientMap.lookup msg.clientId).isSome then
    { Handled.done world with toClient :=
        if ctx.toClientSender.alive then [(peerId,Message.resp "user has logined")] else [] }
  else
    let user := User.randomWithoutVelocity env.nextId env.randPosition
    let world := { world with clientMap := world.clientMap.insert msg.clientId env.nextId }
    if ctx.nodeType = .Slave then
      -- a failed send is only logged
      { Handled.done world with toMaster :=
          if ctx.toMasterSender.alive then
            [(Message.addUser ctx.selfNodeInfo.getKey user).setPeerId peerId]
          else [] }
    else
      Handled.reply ctx (world.addUser user) peerId (Message.resp (toString env.nextId))

def handleLogout (msg : Message) : Handled :=
  if ctx.nodeType = .Slave then
    match world.clientMap.lookup msg.clientId with
    | none => Handled.panicked world .clientNotLoggedIn
    | some userId =>
      Handled.forward ctx { world with clientMap := world.clientMap.erase msg.clientId }
        ((Message.delUser ctx.selfNodeInfo.getKey userId).setPeerId peerId)
  else
    Handled.after (world.removeUserByClientId msg.clientId) (fun world =>
      Handled.reply ctx world peerId (Message.resp "logout reply"))

/-- A slave logs an error and goes on all the same. -/
def handleAddUser (msg : Message) : Handled :=
  match msg.content.bind Content.asUser with
  | none => Handled.panicked world .badContent
  | some user => Handled.reply ctx (world.addUser user) peerId
      ((Message.resp (toString user.id)).setPeerIdOpt msg.clientPeerId)

def handleDelUser (msg : Message) : Handled :=
  match msg.userId with
  | none => Handled.panicked world .userIdMissing
  | some userId =>
    Handled.after (world.removeUser userId) (fun world =>
      Handled.reply ctx world peerId ((Message.resp "del user reply").setPeerIdOpt msg.clientPeerId))

def handleQuery (msg : Message) : Handled :=
  match msg.content.bind Content.asScope with
  | none => Handled.panicked world .badContent
  | some scope => Handled.reply ctx world peerId (Message.queryResp (world.query scope))

def handleMsgTask (msg : Message) : Handled :=
  let isCluster := ctx.mode == .Cluster
  let isSlave := ctx.nodeType == .Slave
  let slaveClientId := ctx.selfNodeInfo.getKey
  match msg.operation with
  | .Login => handleLogin env ctx world peerId msg
  | .Logout => handleLogout ctx world peerId msg
  | .AddUser => handleAddUser ctx world peerId msg
  | .DelUser => handleDelUser ctx world peerId msg
  | .Aoe => handleOperation isCluster isSlave (doAoeInSelfWorld env ctx world peerId msg)
      (redirectMsgToMaster ctx world (msg.setPeerId peerId) slaveClientId)
  | .SetVelocity => handleOperation isCluster isSlave (doSetVelocityInSelfWorld ctx world peerId msg)
      (redirectMsgToMaster ctx world (msg.setPeerId peerId) slaveClientId)
  | .Query => handleQuery ctx world peerId msg
  | _ => Handled.done world

def removeOfflineClient (clientId : String) : Handled :=
  match ctx.nodeType with
  | .Master => Handled.after (world.removeUserByClientId clientId) Handled.done
  | .Slave =>
    match world.clientMap.lookup clientId with
    | none => Handled.done world
    | some userId =>
      Handled.forward ctx { world with clientMap := world.clientMap.erase clientId }
        (Message.delUser ctx.selfNodeInfo.getKey userId)

end

/-- What `convert_self_to_master` does to the context; it also sends the answer. -/
def convertSelfToMaster (ctx : ServerContext) : ServerContext :=
  { ctx with
    selfNodeInfo := { ctx.selfNodeInfo with nodeType := .Master }
    nodeType := .Master }

/-- The world's part of one round of `world_update_thread`. -/
def worldUpdateRound (ctx : ServerContext) (world : World) : Outcome Panic World :=
  if ctx.mode = .Cluster then
    match ctx.nodeType with
    | .Master => world.update
    | .Slave => Outcome.ok world
  else world.update

/-! ## Handlers as world operations -/

def World.apply (overflow : Overflow) (w : World) (ops : List WorldOp) : World :=
  ops.foldl (fun w a => (a.run overflow w).state) w

/-- The operations a message stands for on a node that owns its world. -/
def masterOps (env : Surroundings) (world : World) (msg : Message) : List WorldOp :=
  match msg.operation with
  | .Login =>
    if (world.clientMap.lookup msg.clientId).isSome then []
    else [.login msg.clientId env.nextId,
      .addUser (User.randomWithoutVelocity env.nextId env.randPosition)]
  | .Logout => [.removeUserByClientId msg.clientId]
  | .AddUser => ((msg.content.bind Content.asUser).map WorldOp.addUser).toList
  | .DelUser => (msg.userId.map WorldOp.removeUser).toList
  | .Aoe =>
    match msg.content.bind Content.asAoe, msg.userId with
    | some (radius,money), some userId => [.aoe env.order userId radius money]
    | _, _ => []
  | .SetVelocity =>
    match msg.content.bind Content.asVelocity, msg.userId with
    | some velocity, some userId => [.setVelocity userId velocity]
    | _, _ => []
  | _ => []

/-- The operations a message stands for on a slave; an `AddUser` or `DelUser` is carried
out although only a master should get it. -/
def slaveOps (env : Surroundings) (ctx : ServerContext) (world : World) (msg : Message) : List WorldOp :=
  match msg.operation with
  | .Login =>
    if (world.clientMap.lookup msg.clientId).isSome then [] else [.login msg.clientId env.nextId]
  | .Logout => ((world.clientMap.lookup msg.clientId).map (fun _ => .logout msg.clientId)).toList
  | .Aoe => if ctx.mode = .Cluster then [] else masterOps env world msg
  | .SetVelocity => if ctx.mode = .Cluster then [] else masterOps env world msg
  | _ => masterOps env world msg

section
variable (env : Surroundings) (ctx : ServerContext) (w : World) (peerId : PeerIdentity) (msg : Message)

theorem handleAddUser_world (hop : msg.operation = .AddUser) :
    (handleAddUser ctx w peerId msg).world = w.apply env.overflow (masterOps env w msg) := by
  simp only [handleAddUser, masterOps, hop]
  cases msg.content.bind Content.asUser <;> simp [World.apply, WorldOp.run]

theorem handleDelUser_world (hop : msg.operation = .DelUser) :
    (handleDelUser ctx w peerId msg).world = w.apply env.overflow (masterOps env w msg) := by
  simp only [handleDelUser, masterOps, hop]
  cases msg.userId with
  | none => rfl
  | some userId => exact Handled.after_world (fun w => Handled.reply_world _ w _ _)

theorem doAoeInSelfWorld_world (hop : msg.operation = .Aoe) :
    (doAoeInSelfWorld env ctx w peerId msg).world = w.apply env.overflow (masterOps env w msg) := by
  simp only [doAoeInSelfWorld, masterOps, hop]
  cases msg.content.bind Content.asAoe with
  | none => rfl
  | some c =>
    cases msg.userId with
    | none => rfl
    | some userId => exact Handled.after_world (fun w => Handled.reply_world _ w _ _)

theorem doSetVelocityInSelfWorld_world (hop : msg.operation = .SetVelocity) :
    (doSetVelocityInSelfWorld ctx w peerId msg).world =
      w.apply env.overflow (masterOps env w msg) := by
  simp only [doSetVelocityInSelfWorld, masterOps, hop]
  cases msg.content.bind Content.asVelocity with
  | none => rfl
  | some velocity =>
    cases msg.userId with
    | none => rfl
    | some userId => simp [World.apply, WorldOp.run]

theorem handleQuery_world (hop : msg.operation = .Query) :
    (handleQuery ctx w peerId msg).world = w.apply env.overflow (masterOps env w msg) := by
  simp only [handleQuery, masterOps, hop]
  cases msg.content.bind Content.asScope <;> simp [World.apply]

end

/-- On a node that owns its world a handler does to it what its operations do. -/
theorem handleMsgTask_world {ctx : ServerContext} (hm : ctx.nodeType = .Master) (env : Surroundings)
    (w : World) (peerId : PeerIdentity) (msg : Message) :
    (handleMsgTask env ctx w peerId msg).world = w.apply env.overflow (masterOps env w msg) := by
  have hns : (ctx.nodeType == NodeType.Slave) = false := by rw [hm]; rfl
  have hself : ∀ (b : Bool) (p q : Handled), handleOperation b false p q = p := by
    intro b p q
    cases b <;> rfl
  cases hop : msg.operation with
  | Login =>
    simp only [handleMsgTask, hop, handleLogin, masterOps]
    split
    · rfl
    · simp [hm, World.apply, WorldOp.run]
  | Logout =>
    simp only [handleMsgTask, hop, handleLogout, masterOps, hm, reduceCtorEq, if_false]
    exact Handled.after_world (fun w => Handled.reply_world _ w _ _)
  | AddUser =>
    simp only [handleMsgTask, hop]
    exact handleAddUser_world env ctx w peerId msg hop
  | DelUser =>
    simp only [handleMsgTask, hop]
    exact handleDelUser_world env ctx w peerId msg hop
  | Aoe =>
    simp only [handleMsgTask, hop, hns, hself]
    exact doAoeInSelfWorld_world env ctx w peerId msg hop
  | SetVelocity =>
    simp only [handleMsgTask, hop, hns, hself]
    exact doSetVelocityInSelfWorld_world env ctx w peerId msg hop
  | Query =>
    simp only [handleMsgTask, hop]
    exact handleQuery_world env ctx w peerId msg hop
  | _ => simp [handleMsgTask, hop, masterOps, World.apply]

theorem handleMsgTask_world_of_slave {ctx : ServerContext} (hs : ctx.nodeType = .Slave)
    (env : Surroundings) (w : World) (peerId : PeerIdentity) (msg : Message) :
    (handleMsgTask env ctx w peerId msg).world = w.apply env.overflow (slaveOps env ctx w msg) := by
  have hsl : (ctx.nodeType == NodeType.Slave) = true := by rw [hs]; rfl
  cases hop : msg.operation with
  | Login =>
    simp only [handleMsgTask, hop, handleLogin, slaveOps]
    split
    · rfl
    · simp [World.apply, WorldOp.run]
  | Logout =>
    simp only [handleMsgTask, hop, handleLogout, slaveOps, hs, if_true]
    cases w.clientMap.lookup msg.clientId with
    | none => rfl
    | some userId => simp [World.apply, WorldOp.run]
  | AddUser =>
    simp only [handleMsgTask, hop, slaveOps]
    exact handleAddUser_world env ctx w peerId msg hop
  | DelUser =>
    simp only [handleMsgTask, hop, slaveOps]
    exact handleDelUser_world env ctx w peerId msg hop
  | Aoe =>
    simp only [handleMsgTask, hop, slaveOps, hsl]
    cases hmode : ctx.mode with
    | Cluster => exact Handled.forward_world ctx w _
    | Single => exact doAoeInSelfWorld_world env ctx w peerId msg hop
  | SetVelocity =>
    simp only [handleMsgTask, hop, slaveOps, hsl]
    cases hmode : ctx.mode with
    | Cluster => exact Handled.forward_world ctx w _
    | Single => exact doSetVelocityInSelfWorld_world env ctx w peerId msg hop
  | Query =>
    simp only [handleMsgTask, hop, slaveOps]
    exact handleQuery_world env ctx w peerId msg hop
  | _ => simp [handleMsgTask, hop, slaveOps, masterOps, World.apply]

theorem worldUpdateRound_of_master {ctx : ServerContext} (hm : ctx.nodeType = .Master) (w : World) :
    worldUpdateRound ctx w = w.update := by
  unfold worldUpdateRound
  rw [hm]
  split <;> rfl

theorem removeOfflineClient_world {ctx : ServerContext} (hm : ctx.nodeType = .Master) (w : World)
    (clientId : String) :
    (removeOfflineClient ctx w clientId).world = (w.removeUserByClientId clientId).state := by
  simp only [removeOfflineClient, hm]
  exact Handled.after_world Handled.done_world

theorem removeOfflineClient_world_of_slave {ctx : ServerContext} (hs : ctx.nodeType = .Slave) (w : World)
    (clientId : String) :
    (removeOfflineClient ctx w clientId).world = w ∨
      (removeOfflineClient ctx w clientId).world = { w with clientMap := w.clientMap.erase clientId } := by
  simp only [removeOfflineClient, hs]
  cases w.clientMap.lookup clientId with
  | none => exact Or.inl rfl
  | some userId => exact Or.inr (Handled.forward_world ctx _ _)

/-! ## Handlers keep the maps of `World::init` -/

theorem onGrid_apply {overflow : Overflow} {w : World} (h : w.OnGrid) (ops : List WorldOp) :
    (w.apply overflow ops).OnGrid := by
  induction ops generalizing w with
  | nil => exact h
  | cons a ops ih => exact ih (h.run overflow a)

theorem onGrid_worldUpdateRound {w : World} (h : w.OnGrid) (ctx : ServerContext) :
    (worldUpdateRound ctx w).state.OnGrid := by
  unfold worldUpdateRound
  split
  · cases ctx.nodeType with
    | Master => exact h.update
    | Slave => exact h
  · exact h.update

end GameServer.Server
