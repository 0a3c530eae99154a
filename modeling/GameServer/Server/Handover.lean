import GameServer.Server.MainHandle

/-! # Handing a session over to the master

A slave writes its session table first and sends the `AddUser` or `DelUser` that goes
with the entry second. When the relay to the master is gone the second half fails: a login
only logs it, a logout and an expiry panic, and none of the three takes the first half back.
-/
namespace GameServer.Server
open Common Library

/-- What makes a slave hand something over: a login, a logout, or a heartbeat that stopped. -/
inductive HandOver
  | login (env : Surroundings) (peerId : PeerIdentity) (msg : Message) (hop : msg.operation = .Login)
  | logout (env : Surroundings) (peerId : PeerIdentity) (msg : Message) (hop : msg.operation = .Logout)
  | expiry (clientId : String)

namespace HandOver

def clientId : HandOver → String
  | login _ _ msg _ => msg.clientId
  | logout _ _ msg _ => msg.clientId
  | expiry clientId => clientId

def isLogin : HandOver → Bool
  | login .. => true
  | _ => false

def run (ctx : ServerContext) (w : World) : HandOver → Handled
  | login env peerId msg _ => handleMsgTask env ctx w peerId msg
  | logout env peerId msg _ => handleMsgTask env ctx w peerId msg
  | expiry clientId => removeOfflineClient ctx w clientId

/-- A login is of a new client, a logout and an expiry of one that is logged in. -/
def Due (w : World) (h : HandOver) : Prop := (w.clientMap.lookup h.clientId).isSome = !h.isLogin

def sessions (w : World) : HandOver → HashMap String UserId
  | login env _ msg _ => w.clientMap.insert msg.clientId env.nextId
  | logout _ _ msg _ => w.clientMap.erase msg.clientId
  | expiry clientId => w.clientMap.erase clientId

def message (ctx : ServerContext) (w : World) : HandOver → Option Message
  | login env peerId _ _ => some ((Message.addUser ctx.selfNodeInfo.getKey
      (User.randomWithoutVelocity env.nextId env.randPosition)).setPeerId peerId)
  | logout _ peerId msg _ => (w.clientMap.lookup msg.clientId).map (fun userId =>
      (Message.delUser ctx.selfNodeInfo.getKey userId).setPeerId peerId)
  | expiry clientId => (w.clientMap.lookup clientId).map (Message.delUser ctx.selfNodeInfo.getKey)

section
variable {ctx : ServerContext} {w : World} {h : HandOver}

/-- The table is written either way; the message goes out if the relay is there, and only a
login hides that it is not. -/
theorem run_of_due (hs : ctx.nodeType = .Slave) (hdue : h.Due w) :
    h.run ctx w =
      { world := { w with clientMap := h.sessions w }
        toClient := []
        toMaster := if ctx.toMasterSender.alive then (h.message ctx w).toList else []
        panic := if ctx.toMasterSender.alive || h.isLogin then none else some .channelClosed } := by
  cases h with
  | login env peerId msg hop =>
    have hnew : (w.clientMap.lookup msg.clientId).isSome = false := hdue
    cases ha : ctx.toMasterSender.alive <;>
      simp [run, handleMsgTask, hop, handleLogin, hnew, hs, ha, sessions, message, isLogin, Handled.done]
  | logout env peerId msg hop =>
    obtain ⟨userId,hu⟩ := Option.isSome_iff_exists.mp hdue
    have hl : w.clientMap.lookup msg.clientId = some userId := hu
    cases ha : ctx.toMasterSender.alive <;>
      simp [run, handleMsgTask, hop, handleLogout, hl, hs, ha, sessions, message, isLogin,
        Handled.forward, Handled.done, Handled.panicked]
  | expiry clientId =>
    obtain ⟨userId,hu⟩ := Option.isSome_iff_exists.mp hdue
    have hl : w.clientMap.lookup clientId = some userId := hu
    cases ha : ctx.toMasterSender.alive <;>
      simp [run, removeOfflineClient, hl, hs, ha, sessions, message, isLogin, Handled.forward,
        Handled.done, Handled.panicked]

theorem lookup_sessions (h : HandOver) (w : World) :
    ((h.sessions w).lookup h.clientId).isSome = h.isLogin := by
  cases h with
  | login env peerId msg hop =>
    simp only [sessions, clientId, isLogin, AList.lookup_insert, Option.isSome_some]
  | logout env peerId msg hop =>
    simp only [sessions, clientId, isLogin, AList.lookup_erase, Option.isSome_none]
  | expiry clientId =>
    simp only [sessions, HandOver.clientId, isLogin, AList.lookup_erase, Option.isSome_none]

theorem sessions_ne (hdue : h.Due w) : ¬ (h.sessions w).Same w.clientMap := by
  intro hsame
  have hkey := hsame h.clientId
  have hnow := lookup_sessions h w
  have hbefore : (w.clientMap.lookup h.clientId).isSome = !h.isLogin := hdue
  rw [hkey, hbefore] at hnow
  cases hl : h.isLogin <;> simp [hl] at hnow

theorem run_of_not_due (hs : ctx.nodeType = .Slave) (hdue : ¬ h.Due w) :
    (h.run ctx w).world = w ∧ (h.run ctx w).toMaster = [] := by
  cases h with
  | login env peerId msg hop =>
    have hold : (w.clientMap.lookup msg.clientId).isSome = true := by
      simpa only [Due, clientId, isLogin, Bool.not_true, Bool.not_eq_false] using hdue
    simp [run, handleMsgTask, hop, handleLogin, hold, Handled.done]
  | logout env peerId msg hop =>
    have hnone : w.clientMap.lookup msg.clientId = none := by
      simpa only [Due, clientId, isLogin, Bool.not_false, Bool.not_eq_true, Option.isSome_eq_false_iff,
        Option.isNone_iff_eq_none] using hdue
    simp [run, handleMsgTask, hop, handleLogout, hnone, hs, Handled.panicked]
  | expiry clientId =>
    have hnone : w.clientMap.lookup clientId = none := by
      simpa only [Due, HandOver.clientId, isLogin, Bool.not_false, Bool.not_eq_true,
        Option.isSome_eq_false_iff, Option.isNone_iff_eq_none] using hdue
    simp [run, removeOfflineClient, hnone, hs, Handled.done]

/-- While the relay is there, the entry and its message go together. -/
theorem run_of_alive (hs : ctx.nodeType = .Slave) (ha : ctx.toMasterSender.alive = true) (hdue : h.Due w) :
    (h.run ctx w).world.clientMap = h.sessions w ∧ (h.run ctx w).toMaster = (h.message ctx w).toList ∧
      (h.run ctx w).panic = none := by
  rw [run_of_due hs hdue]
  simp [ha]

/-- Whatever became of the message, the client cannot start or end the session again: the
second attempt of the same kind is not due, so it tells the master nothing. -/
theorem no_second_attempt {ctx' : ServerContext} {h' : HandOver} (hs : ctx.nodeType = .Slave)
    (hs' : ctx'.nodeType = .Slave) (hdue : h.Due w) (hc : h'.clientId = h.clientId)
    (hk : h'.isLogin = h.isLogin) : (h'.run ctx' (h.run ctx w).world).toMaster = [] := by
  have hnot : ¬ h'.Due (h.run ctx w).world := by
    rw [run_of_due hs hdue]
    intro hdue'
    have hnow := lookup_sessions h w
    have hthen : ((h.sessions w).lookup h'.clientId).isSome = !h'.isLogin := hdue'
    rw [hc, hnow, hk] at hthen
    cases hl : h.isLogin <;> simp [hl] at hthen
  exact (run_of_not_due hs' hnot).2

end

/-- A hand-over that fails is never undone: nothing reaches the master, and the session table
has lost or gained the client all the same. -/
theorem failed_never_undone {ctx : ServerContext} {w : World} {h : HandOver}
    (hs : ctx.nodeType = .Slave) (hdead : ctx.toMasterSender.alive = false) (hdue : h.Due w) :
    (h.run ctx w).toMaster = [] ∧ ¬ (h.run ctx w).world.clientMap.Same w.clientMap := by
  rw [run_of_due hs hdue]
  refine ⟨?_,sessions_ne hdue⟩
  simp [hdead]

def first : HandOver := login .plain "peer" (Message.login "client") rfl

theorem first_due : first.Due (World.init .slave) := rfl

theorem failed_never_undone_first :
    (first.run (ServerContext.newByConfig .slave) (World.init .slave)).toMaster = [] ∧
      ¬ (first.run (ServerContext.newByConfig .slave) (World.init .slave)).world.clientMap.Same
        (World.init .slave).clientMap :=
  failed_never_undone GameServerConf.slave_nodeType rfl first_due

theorem failed_not_always_undone : ¬ ∀ (ctx : ServerContext) (w : World) (h : HandOver),
    ctx.nodeType = .Slave → ctx.toMasterSender.alive = false → h.Due w →
    (h.run ctx w).world.clientMap.Same w.clientMap := by
  intro hall
  have hsame := hall (ServerContext.newByConfig .slave) (World.init .slave) first
    GameServerConf.slave_nodeType rfl first_due
  rw [run_of_due GameServerConf.slave_nodeType first_due] at hsame
  exact sessions_ne first_due hsame

end HandOver
end GameServer.Server
