import GameServer.Library.Waiting
import GameServer.Server.MainHandle

/-! # The locks and channels of a server process

Every task of the source as the sequence of what it locks, releases and sends. A guard is
released where it goes out of scope: at the end of its statement when it is a temporary,
otherwise at the end of its block. Where a task looks at shared data, what it finds there
is an argument.
-/
namespace GameServer.Server
open Common Library Library.Waiting

inductive Mutex
  | heartbeatLastTime
  | serverCtx
  | world
deriving DecidableEq

inductive Channel
  | toClient
  | toMaster
  | toRegistryCenter
  | worldSync
deriving DecidableEq

namespace Locks

def handleOperation (isCluster isSlave : Bool) (doInSelfWorld doInSlave : List (Op Mutex Channel)) :
    List (Op Mutex Channel) :=
  if isCluster then if isSlave then doInSlave else doInSelfWorld else doInSelfWorld

/-- `do_aoe_in_self_world` and `do_set_velocity_in_self_world` reply with the world locked. -/
def doInSelfWorld : List (Op Mutex Channel) := holding .world [.send .toClient]

def redirectMsgToMaster : List (Op Mutex Channel) := [.send .toMaster]

/-- `handle_msg_task`; `again` tells whether a client that logs in has a session. -/
def handleMsgTask (mode : Mode) (nodeType : NodeType) (operation : Operation) (again : Bool) :
    List (Op Mutex Channel) :=
  let isCluster := mode == .Cluster
  let isSlave := nodeType == .Slave
  holding .serverCtx
    (match operation with
    | .Login =>
      holding .world
        (if again then [.send .toClient] else if isSlave then [.send .toMaster] else [.send .toClient])
    | .Logout => holding .world (if isSlave then [.send .toMaster] else [.send .toClient])
    -- the guard of the world is a temporary of one statement
    | .AddUser | .DelUser | .Query => holding .world [] ++ [.send .toClient]
    | .Aoe | .SetVelocity => handleOperation isCluster isSlave doInSelfWorld redirectMsgToMaster
    | _ => [])

/-- `remove_offline_client`; `found` tells whether a slave has a session of the client. -/
def removeOfflineClient (nodeType : NodeType) (found : Bool) : List (Op Mutex Channel) :=
  holding .serverCtx
    (match nodeType with
    | .Master => holding .world []
    | .Slave => holding .world (if found then [.send .toMaster] else []))

/-- One round of `heartbeat_monitor`, with what it meets at each client that is offline. -/
def heartbeatRound (offline : List (NodeType × Bool)) : List (Op Mutex Channel) :=
  holding .heartbeatLastTime
    (offline.flatMap (fun c => removeOfflineClient c.1 c.2) ++ holding .world [])

def heartbeatMonitor (rounds : List (List (NodeType × Bool))) : List (Op Mutex Channel) :=
  rounds.flatMap heartbeatRound

def heartbeatUpdate (pings : List String) : List (Op Mutex Channel) :=
  pings.flatMap (fun _ => holding .heartbeatLastTime [])

def worldUpdateOnlyMasterOrSingle : List (Op Mutex Channel) := holding .world []

/-- One round of `world_update_thread`; the tasks it spawns run on their own. -/
def worldUpdateRound (mode : Mode) (nodeType : NodeType) : List (Op Mutex Channel) :=
  if mode = .Cluster then
    holding .serverCtx
      (match nodeType with
      | .Master => worldUpdateOnlyMasterOrSingle ++ holding .world []
      | .Slave => holding .world [])
  else worldUpdateOnlyMasterOrSingle

def worldUpdateThread (mode : Mode) (rounds : List NodeType) : List (Op Mutex Channel) :=
  holding .serverCtx [] ++ holding .serverCtx [] ++ rounds.flatMap (worldUpdateRound mode)

def convertSelfToMaster : List (Op Mutex Channel) := holding .serverCtx [.send .toRegistryCenter]

def handleRespFromRegistryCenterTask (operation : Operation) : List (Op Mutex Channel) :=
  match operation with
  | .ConvertToMaster => convertSelfToMaster
  | _ => []

/-- `run` up to where it spawns the threads: `do_in_cluster_mode`, then `do_slave` on a slave. -/
def run (mode : Mode) (nodeType : NodeType) : List (Op Mutex Channel) :=
  if mode = .Cluster then
    holding .serverCtx [] ++ holding .serverCtx [] ++
      if nodeType = .Slave then holding .serverCtx [] else []
  else []

end Locks

/-- The tasks of a server process that touch a mutex or send to a channel. -/
inductive Task
  | handleMsgTask (mode : Mode) (nodeType : NodeType) (operation : Operation) (again : Bool)
  | worldUpdateThread (mode : Mode) (rounds : List NodeType)
  | heartbeatMonitor (rounds : List (List (NodeType × Bool)))
  | heartbeatUpdate (pings : List String)
  | slaveSyncWorldTask
  | handleRespFromRegistryCenterTask (operation : Operation)
  | syncWorldUsersTask
  | tryReportLoadFactorTask
  | loadTest (maxUserCount : ℕ)
  | run (mode : Mode) (nodeType : NodeType)

def Task.body : Task → List (Op Mutex Channel)
  | .handleMsgTask mode nodeType operation again => Locks.handleMsgTask mode nodeType operation again
  | .worldUpdateThread mode rounds => Locks.worldUpdateThread mode rounds
  | .heartbeatMonitor rounds => Locks.heartbeatMonitor rounds
  | .heartbeatUpdate pings => Locks.heartbeatUpdate pings
  | .slaveSyncWorldTask => holding .world []
  | .handleRespFromRegistryCenterTask operation => Locks.handleRespFromRegistryCenterTask operation
  | .syncWorldUsersTask => [.send .worldSync]
  | .tryReportLoadFactorTask => [.send .toRegistryCenter]
  | .loadTest maxUserCount => (List.range maxUserCount).flatMap (fun _ => holding .world [])
  | .run mode nodeType => Locks.run mode nodeType

/-- The relay loops: `main_channel_thread` drains what goes to clients,
`forward_master_slave_client_thread` what goes to the master,
`forward_server_to_registry_center_thread` what goes to the registry and
`pub_world_sync_thread` the snapshots. All pass on to a socket; only what a slave hears from
its master goes to another channel. -/
def serverProgram : Program Mutex Channel where
  bodies ops := ∃ task : Task, ops = task.body
  drains _ out := out = []
  hears c out := out = [] ∨ c = .toMaster ∧ out = [.toClient]
  capacity
    | .toClient => 100
    | .toMaster => 100
    | .toRegistryCenter => 100
    | .worldSync => 200

/-! ## The sequences and the handlers -/

def Handled.channels (h : Handled) : List Channel :=
  h.toClient.map (fun _ => .toClient) ++ h.toMaster.map (fun _ => .toMaster)

def Handled.Follows (h : Handled) (ops : List (Op Mutex Channel)) : Prop :=
  h.panic = none → h.channels = sends ops

namespace Handled
variable {ctx : ServerContext} {world : World} {ops : List (Op Mutex Channel)}

theorem done_follows (h : sends ops = []) : (done world).Follows ops := by
  intro _
  rw [h]
  rfl

theorem panicked_follows (e : Panic) : (panicked world e).Follows ops := by
  intro h
  cases h

theorem reply_follows (hc : ctx.toClientSender.alive = true) (h : sends ops = [.toClient])
    (peerId : PeerIdentity) (msg : Message) : (reply ctx world peerId msg).Follows ops := by
  intro _
  simp [reply, hc, h, channels, done]

theorem forward_follows (hm : ctx.toMasterSender.alive = true) (h : sends ops = [.toMaster])
    (msg : Message) : (forward ctx world msg).Follows ops := by
  intro _
  simp [forward, hm, h, channels, done]

theorem after_follows {o : Outcome Panic World} {next : World → Handled} (h : ∀ w, (next w).Follows ops) :
    (after o next).Follows ops := by
  unfold after
  split
  · exact panicked_follows _
  · exact h _

end Handled

section
variable {ctx : ServerContext} (world : World) (peerId : PeerIdentity) (msg : Message)

theorem handleLogin_follows (env : Surroundings) (hc : ctx.toClientSender.alive = true)
    (hm : ctx.nodeType = .Slave → ctx.toMasterSender.alive = true) :
    (handleLogin env ctx world peerId msg).Follows
      (Locks.handleMsgTask ctx.mode ctx.nodeType .Login (world.clientMap.lookup msg.clientId).isSome) := by
  unfold handleLogin
  by_cases hagain : (world.clientMap.lookup msg.clientId).isSome = true
  · rw [if_pos hagain]
    intro _
    simp [Locks.handleMsgTask, hagain, hc, Handled.channels, Handled.done, sends]
  · rw [if_neg hagain]
    rw [Bool.not_eq_true] at hagain
    dsimp only
    by_cases hslave : ctx.nodeType = .Slave
    · rw [if_pos hslave]
      intro _
      simp [Locks.handleMsgTask, hagain, hslave, hm hslave, Handled.channels, Handled.done, sends]
    · rw [if_neg hslave]
      apply Handled.reply_follows hc
      simp [Locks.handleMsgTask, hagain, hslave, sends]

theorem handleLogout_follows (again : Bool) (hc : ctx.toClientSender.alive = true)
    (hm : ctx.nodeType = .Slave → ctx.toMasterSender.alive = true) :
    (handleLogout ctx world peerId msg).Follows
      (Locks.handleMsgTask ctx.mode ctx.nodeType .Logout again) := by
  unfold handleLogout
  by_cases hslave : ctx.nodeType = .Slave
  · rw [if_pos hslave]
    split
    · exact Handled.panicked_follows _
    · apply Handled.forward_follows (hm hslave)
      simp [Locks.handleMsgTask, hslave, sends]
  · rw [if_neg hslave]
    apply Handled.after_follows
    intro w
    apply Handled.reply_follows hc
    simp [Locks.handleMsgTask, hslave, sends]

theorem handleOperation_follows {self slave : Handled}
    (hm : ctx.nodeType = .Slave → ctx.toMasterSender.alive = true)
    (hself : self.Follows Locks.doInSelfWorld)
    (hslave : ctx.toMasterSender.alive = true → slave.Follows Locks.redirectMsgToMaster) :
    (handleOperation (ctx.mode == .Cluster) (ctx.nodeType == .Slave) self slave).Follows
      (holding .serverCtx
        (Locks.handleOperation (ctx.mode == .Cluster) (ctx.nodeType == .Slave) Locks.doInSelfWorld
          Locks.redirectMsgToMaster)) := by
  intro hp
  rw [sends_holding]
  revert hp
  unfold handleOperation Locks.handleOperation
  split
  · split
    · rename_i hs
      exact hslave (hm (by simpa using hs))
    · exact hself
  · exact hself

/-- What a handler of the main channel sends while its channels are open is what its
sequence of locks and sends has. -/
theorem handleMsgTask_follows (env : Surroundings) (hc : ctx.toClientSender.alive = true)
    (hm : ctx.nodeType = .Slave → ctx.toMasterSender.alive = true) :
    (handleMsgTask env ctx world peerId msg).Follows
      (Locks.handleMsgTask ctx.mode ctx.nodeType msg.operation
        (world.clientMap.lookup msg.clientId).isSome) := by
  unfold handleMsgTask
  cases msg.operation with
  | Login => exact handleLogin_follows world peerId msg env hc hm
  | Logout => exact handleLogout_follows world peerId msg _ hc hm
  | AddUser =>
    dsimp only
    unfold handleAddUser
    split
    · exact Handled.panicked_follows _
    · exact Handled.reply_follows hc rfl _ _
  | DelUser =>
    dsimp only
    unfold handleDelUser
    split
    · exact Handled.panicked_follows _
    · exact Handled.after_follows (fun w => Handled.reply_follows hc rfl _ _)
  | Query =>
    dsimp only
    unfold handleQuery
    split
    · exact Handled.panicked_follows _
    · exact Handled.reply_follows hc rfl _ _
  | Aoe =>
    apply handleOperation_follows hm
    · unfold doAoeInSelfWorld
      split
      · exact Handled.panicked_follows _
      · split
        · exact Handled.panicked_follows _
        · exact Handled.after_follows (fun w => Handled.reply_follows hc rfl _ _)
    · intro halive
      exact Handled.forward_follows halive rfl _
  | SetVelocity =>
    apply handleOperation_follows hm
    · unfold doSetVelocityInSelfWorld
      split
      · exact Handled.panicked_follows _
      · split
        · exact Handled.panicked_follows _
        · exact Handled.reply_follows hc rfl _ _
    · intro halive
      exact Handled.forward_follows halive rfl _
  | _ => exact Handled.done_follows rfl

theorem removeOfflineClient_follows (clientId : String)
    (hm : ctx.nodeType = .Slave → ctx.toMasterSender.alive = true) :
    (removeOfflineClient ctx world clientId).Follows
      (Locks.removeOfflineClient ctx.nodeType (world.clientMap.lookup clientId).isSome) := by
  unfold removeOfflineClient
  cases hn : ctx.nodeType with
  | Master => exact Handled.after_follows (fun w => Handled.done_follows rfl)
  | Slave =>
    dsimp only
    cases hfound : world.clientMap.lookup clientId with
    | none => exact Handled.done_follows rfl
    | some userId => exact Handled.forward_follows (hm hn) rfl _

end

/-! ## The order of the locks -/

def Mutex.rank : Mutex → ℕ
  | .heartbeatLastTime => 0
  | .serverCtx => 1
  | .world => 2

def Channel.level : Channel → ℕ
  | .toClient => 1
  | _ => 0

namespace Locks
variable {held : List Mutex}

/-- The world is the last lock on every path. -/
theorem nested_world {ops : List (Op Mutex Channel)} (h : Nested Mutex.rank (.world :: held) ops)
    (hheld : .world ∉ held) : Nested Mutex.rank held (holding .world ops) := by
  apply h.holding
  intro m hm
  cases m with
  | world => exact absurd hm hheld
  | _ => decide

theorem nested_serverCtx {ops : List (Op Mutex Channel)} (h : Nested Mutex.rank (.serverCtx :: held) ops)
    (hheld : ∀ m ∈ held, m = .heartbeatLastTime) : Nested Mutex.rank held (holding .serverCtx ops) := by
  apply h.holding
  intro m hm
  rw [hheld m hm]
  decide

theorem nested_handleMsgTask (mode : Mode) (nodeType : NodeType) (operation : Operation) (again : Bool) :
    Nested Mutex.rank [] (handleMsgTask mode nodeType operation again) := by
  apply nested_serverCtx
  · cases operation with
    | Login =>
      apply nested_world
      · split
        · exact Nested.send _
        · split
          · exact Nested.send _
          · exact Nested.send _
      · decide
    | Logout =>
      apply nested_world
      · split
        · exact Nested.send _
        · exact Nested.send _
      · decide
    | AddUser | DelUser | Query => exact (nested_world Nested.nil (by decide)).append (Nested.send _)
    | Aoe | SetVelocity =>
      dsimp only
      unfold handleOperation
      have hself : Nested Mutex.rank [Mutex.serverCtx] doInSelfWorld :=
        nested_world (Nested.send _) (by decide)
      split
      · split
        · exact Nested.send _
        · exact hself
      · exact hself
    | _ => exact Nested.nil
  · simp

theorem nested_removeOfflineClient (nodeType : NodeType) (found : Bool) :
    Nested Mutex.rank [.heartbeatLastTime] (removeOfflineClient nodeType found) := by
  apply nested_serverCtx
  · cases nodeType with
    | Master => exact nested_world Nested.nil (by decide)
    | Slave =>
      apply nested_world
      · split
        · exact Nested.send _
        · exact Nested.nil
      · decide
  · simp

theorem nested_heartbeatRound (offline : List (NodeType × Bool)) :
    Nested Mutex.rank [] (heartbeatRound offline) := by
  apply Nested.holding
  · apply Nested.append
    · exact Nested.flatMap (fun c => nested_removeOfflineClient c.1 c.2) offline
    · exact nested_world Nested.nil (by decide)
  · simp

theorem nested_worldUpdateRound (mode : Mode) (nodeType : NodeType) :
    Nested Mutex.rank [] (worldUpdateRound mode nodeType) := by
  have hworld : ∀ held, .world ∉ held →
      Nested Mutex.rank held (holding Mutex.world ([] : List (Op Mutex Channel))) :=
    fun held hheld => nested_world Nested.nil hheld
  unfold worldUpdateRound
  split
  · apply nested_serverCtx
    · cases nodeType with
      | Master => exact (hworld _ (by decide)).append (hworld _ (by decide))
      | Slave => exact hworld _ (by decide)
    · simp
  · exact hworld _ (by decide)

theorem nested_ctx_only : Nested Mutex.rank [] (holding Mutex.serverCtx ([] : List (Op Mutex Channel))) :=
  nested_serverCtx Nested.nil (by simp)

end Locks

theorem Task.nested_body (task : Task) : Nested Mutex.rank [] task.body := by
  have hworld : Nested Mutex.rank [] (holding Mutex.world ([] : List (Op Mutex Channel))) :=
    Locks.nested_world Nested.nil (by decide)
  cases task with
  | handleMsgTask mode nodeType operation again =>
    exact Locks.nested_handleMsgTask mode nodeType operation again
  | worldUpdateThread mode rounds =>
    exact (Locks.nested_ctx_only.append Locks.nested_ctx_only).append
      (Nested.flatMap (Locks.nested_worldUpdateRound mode) rounds)
  | heartbeatMonitor rounds => exact Nested.flatMap Locks.nested_heartbeatRound rounds
  | heartbeatUpdate pings => exact Nested.flatMap (fun _ => Nested.nil.holding (by simp)) pings
  | slaveSyncWorldTask => exact hworld
  | handleRespFromRegistryCenterTask operation =>
    cases operation with
    | ConvertToMaster => exact Locks.nested_serverCtx (Nested.send _) (by simp)
    | _ => exact Nested.nil
  | syncWorldUsersTask => exact Nested.send _
  | tryReportLoadFactorTask => exact Nested.send _
  | loadTest maxUserCount => exact Nested.flatMap (fun _ => hworld) _
  | run mode nodeType =>
    simp only [body, Locks.run]
    split
    · apply (Locks.nested_ctx_only.append Locks.nested_ctx_only).append
      split
      · exact Locks.nested_ctx_only
      · exact Nested.nil
    · exact Nested.nil

/-- The heartbeat table before the context before the world, and what is heard from the
master goes up to the clients. -/
def serverDiscipline : Discipline serverProgram where
  rank := Mutex.rank
  level := Channel.level
  bound := 3
  rank_lt := by
    intro m
    cases m <;> decide
  level_lt := by
    intro c
    cases c <;> decide
  nested := by
    rintro _ ⟨task,rfl⟩
    exact task.nested_body
  drains := by
    rintro c _ rfl c' hc'
    cases hc'
  hears := by
    rintro c _ (rfl|⟨rfl,rfl⟩) c' hc'
    · cases hc'
    · obtain rfl := List.mem_singleton.mp hc'
      decide
  drained := fun _ => ⟨[],rfl⟩
  room := by
    intro c
    cases c <;> decide

/-- Whoever waits for a mutex or for room in a channel waits in the end for a task or a relay
loop that can take a step, and nobody waits for itself around a circle. -/
theorem no_deadlock {τ : Type} [DecidableEq τ] {s : State τ Mutex Channel}
    (h : (lts serverProgram τ).Reachable s) :
    (∀ p, Blocked serverProgram s p →
      ∃ q, Relation.TransGen (WaitsFor serverProgram s) p q ∧ CanMove serverProgram s q) ∧
    ∀ p, ¬ Relation.TransGen (WaitsFor serverProgram s) p p := by
  have hi : Inv serverDiscipline s := inv_of_reachable h
  constructor
  · intro p hp
    obtain ⟨q,hq⟩ := waitsFor_of_blocked serverProgram hp
    exact hi.progress hq
  · exact hi.acyclic

def relaysOnly : State ℕ Mutex Channel where
  tasks _ := none
  drainers _ := some []
  owner _ := none
  filled _ := 0

theorem no_deadlock_two_logins : ∃ s : State ℕ Mutex Channel, (lts serverProgram ℕ).Reachable s ∧
    Blocked serverProgram s (.task 1) ∧
    ∃ q, Relation.TransGen (WaitsFor serverProgram s) (.task 1) q ∧ CanMove serverProgram s q := by
  let login : Task := .handleMsgTask .Single .Master .Login false
  have h₀ : (lts serverProgram ℕ).Reachable relaysOnly := by
    refine ⟨[],Run.start ⟨fun _ => rfl,fun _ => rfl,?_,fun _ => rfl⟩⟩
    rintro c _ ⟨⟩
    rfl
  have h₁ := h₀.next (Step.spawn (t := 0) rfl ⟨login,rfl⟩)
  have h₂ := h₁.next (Step.spawn (t := 1) rfl ⟨login,rfl⟩)
  -- the first login takes the context
  have h₃ := h₂.next (Step.move (Move.lock (t := 0) (m := .serverCtx) rfl rfl))
  obtain ⟨s,hs,hb⟩ : ∃ s, (lts serverProgram ℕ).Reachable s ∧ Blocked serverProgram s (.task 1) :=
    ⟨_,h₃,Blocked.lock (m := .serverCtx) rfl (by decide)⟩
  exact ⟨s,hs,hb,(no_deadlock hs).1 _ hb⟩

end GameServer.Server
