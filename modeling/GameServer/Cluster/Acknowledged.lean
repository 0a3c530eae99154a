import GameServer.Cluster.Replies
import GameServer.Library.Decimal

/-! # What a reply tells its client

A server answers when it has done what it was asked. On a slave the answer comes from the
master and passes through two channels, while other requests, ticks and snapshots go on. A
client that gets a reply can still rely on it: between its request and its reply the server
that owns the world has done exactly this request.
-/
namespace GameServer.Cluster
open Common CommonServer Library Server

/-! ## What one handler did before it answered -/

/-- `add_user` for this user, whoever else the session table names. -/
def Adds (user : User) (w w' : World) : Prop :=
  w'.maps = (w.addUser user).maps ∧ w'.users = (w.addUser user).users

/-- What a server did with a message, and what it answered. -/
inductive Told (w w' : World) (msg answer : Message) : Prop
  | loginAgain : msg.operation = .Login → (w.clientMap.lookup msg.clientId).isSome → w' = w →
      answer.content = some (.text "user has logined") → Told w w' msg answer
  | login {user : User} : msg.operation = .Login → w.clientMap.lookup msg.clientId = none →
      w'.clientMap = w.clientMap.insert msg.clientId user.id → Adds user w w' →
      answer.content = some (.text (toString user.id)) → Told w w' msg answer
  | logout : msg.operation = .Logout → (w.removeUserByClientId msg.clientId).panic = none →
      w' = (w.removeUserByClientId msg.clientId).state →
      answer.content = some (.text "logout reply") → Told w w' msg answer
  | addUser {user : User} : msg.operation = .AddUser → msg.content.bind Content.asUser = some user →
      w' = w.addUser user → answer.content = some (.text (toString user.id)) → Told w w' msg answer
  | delUser {id : UserId} : msg.operation = .DelUser → msg.userId = some id →
      (w.removeUser id).panic = none → w' = (w.removeUser id).state →
      answer.content = some (.text "del user reply") → Told w w' msg answer
  | aoe {overflow : Overflow} {order : HashMap UserId User → List User} {radius : ℚ} {money : UInt64}
      {id : UserId} {millis : ℕ} : msg.operation = .Aoe → Enumerates order →
      msg.content.bind Content.asAoe = some (radius,money) → msg.userId = some id →
      (w.aoe overflow order id radius money).panic = none → w' = (w.aoe overflow order id radius money).state →
      answer.content = some (.text ("aoe reply,aoe response time:" ++ toString millis)) →
      Told w w' msg answer
  | setVelocity {id : UserId} {velocity : Velocity} : msg.operation = .SetVelocity →
      msg.content.bind Content.asVelocity = some velocity → msg.userId = some id →
      w' = w.setVelocity id velocity → answer.content = some (.text "set_velocity reply") →
      Told w w' msg answer
  | query {scope : RectScope} : msg.operation = .Query → msg.content.bind Content.asScope = some scope →
      w' = w → answer.content = some (.users (w.query scope)) → Told w w' msg answer

inductive SlavePassed (w w' : World) (msg passed : Message) : Prop
  | login {user : User} : msg.operation = .Login → w.clientMap.lookup msg.clientId = none →
      w'.clientMap = w.clientMap.insert msg.clientId user.id → passed.operation = .AddUser →
      passed.content = some (.user user) → SlavePassed w w' msg passed
  | logout {id : UserId} : msg.operation = .Logout → w.clientMap.lookup msg.clientId = some id →
      w'.clientMap = w.clientMap.erase msg.clientId → passed.operation = .DelUser →
      passed.userId = some id → SlavePassed w w' msg passed
  | write : msg.operation = .Aoe ∨ msg.operation = .SetVelocity → passed.operation = msg.operation →
      passed.content = msg.content → passed.userId = msg.userId → SlavePassed w w' msg passed

section
variable {ctx : ServerContext} {env : Surroundings} {w : World} {peerId : PeerIdentity} {msg : Message}

theorem mem_reply {m : Message} {a : PeerIdentity × Message}
    (h : a ∈ (Handled.reply ctx w peerId m).toClient) : a = (peerId,m) := by
  unfold Handled.reply at h
  split at h
  · exact List.mem_singleton.mp h
  · cases h

theorem mem_after_reply {o : Outcome Panic World} {m : Message} {a : PeerIdentity × Message}
    (h : a ∈ (Handled.after o (fun w => Handled.reply ctx w peerId m)).toClient) :
    o.panic = none ∧ a = (peerId,m) := by
  unfold Handled.after at h
  split at h
  · cases h
  · rename_i hp
    exact ⟨hp,mem_reply h⟩

theorem mem_forward {m m' : Message} (h : m' ∈ (Handled.forward ctx w m).toMaster) : m' = m := by
  unfold Handled.forward at h
  split at h
  · exact List.mem_singleton.mp h
  · cases h

theorem told_by_master (hm : ctx.nodeType = .Master) (horder : Enumerates env.order) {a : PeerIdentity × Message}
    (h : a ∈ (handleMsgTask env ctx w peerId msg).toClient) :
    Told w (handleMsgTask env ctx w peerId msg).world msg a.2 := by
  have hns : (ctx.nodeType == NodeType.Slave) = false := by rw [hm]; rfl
  have hself : ∀ (b : Bool) (p q : Handled), handleOperation b false p q = p := by
    intro b p q
    cases b <;> rfl
  cases hop : msg.operation with
  | Login =>
    simp only [handleMsgTask, hop, handleLogin, hm] at h ⊢
    split at h
    · rename_i hin
      split at h
      · obtain rfl := List.mem_singleton.mp h
        rw [if_pos hin]
        exact Told.loginAgain hop hin rfl rfl
      · cases h
    · rename_i hin
      have hnone : w.clientMap.lookup msg.clientId = none := by simpa using hin
      rw [if_neg hin]
      simp only [reduceCtorEq, if_false] at h ⊢
      obtain rfl := mem_reply h
      rw [Handled.reply_world]
      have hadds : Adds (User.randomWithoutVelocity env.nextId env.randPosition) w
          ({ w with clientMap := w.clientMap.insert msg.clientId env.nextId }.addUser
            (User.randomWithoutVelocity env.nextId env.randPosition)) :=
        ⟨rfl,rfl⟩
      exact Told.login hop hnone rfl hadds rfl
  | Logout =>
    simp only [handleMsgTask, hop, handleLogout, hm] at h ⊢
    simp only [reduceCtorEq, if_false] at h ⊢
    obtain ⟨hp,rfl⟩ := mem_after_reply h
    exact Told.logout hop hp (Handled.after_world (fun w => Handled.reply_world _ w _ _)) rfl
  | AddUser =>
    simp only [handleMsgTask, hop, handleAddUser] at h ⊢
    cases hc : msg.content.bind Content.asUser with
    | none =>
      simp only [hc] at h
      cases h
    | some user =>
      simp only [hc] at h ⊢
      obtain rfl := mem_reply h
      exact Told.addUser hop hc (Handled.reply_world _ _ _ _) rfl
  | DelUser =>
    simp only [handleMsgTask, hop, handleDelUser] at h ⊢
    cases hu : msg.userId with
    | none =>
      simp only [hu] at h
      cases h
    | some id =>
      simp only [hu] at h ⊢
      obtain ⟨hp,rfl⟩ := mem_after_reply h
      exact Told.delUser hop hu hp (Handled.after_world (fun w => Handled.reply_world _ w _ _)) rfl
  | Aoe =>
    simp only [handleMsgTask, hop, hns, hself, doAoeInSelfWorld] at h ⊢
    cases hc : msg.content.bind Content.asAoe with
    | none =>
      simp only [hc] at h
      cases h
    | some c =>
      obtain ⟨radius,money⟩ := c
      cases hu : msg.userId with
      | none =>
        simp only [hc, hu] at h
        cases h
      | some id =>
        simp only [hc, hu] at h ⊢
        obtain ⟨hp,rfl⟩ := mem_after_reply h
        exact Told.aoe hop horder hc hu hp (Handled.after_world (fun w => Handled.reply_world _ w _ _)) rfl
  | SetVelocity =>
    simp only [handleMsgTask, hop, hns, hself, doSetVelocityInSelfWorld] at h ⊢
    cases hc : msg.content.bind Content.asVelocity with
    | none =>
      simp only [hc] at h
      cases h
    | some velocity =>
      cases hu : msg.userId with
      | none =>
        simp only [hc, hu] at h
        cases h
      | some id =>
        simp only [hc, hu] at h ⊢
        obtain rfl := mem_reply h
        exact Told.setVelocity hop hc hu (Handled.reply_world _ _ _ _) rfl
  | Query =>
    simp only [handleMsgTask, hop, handleQuery] at h ⊢
    cases hc : msg.content.bind Content.asScope with
    | none =>
      simp only [hc] at h
      cases h
    | some scope =>
      simp only [hc] at h ⊢
      obtain rfl := mem_reply h
      exact Told.query hop hc (Handled.reply_world _ _ _ _) rfl
  | _ =>
    simp only [handleMsgTask, hop] at h
    cases h

/-- A slave of a cluster answers a request itself only if it has nothing to do for it. -/
theorem told_by_slave (hs : ctx.nodeType = .Slave) (hc : ctx.mode = .Cluster) (hreq : IsRequest msg.operation)
    {a : PeerIdentity × Message} (h : a ∈ (handleMsgTask env ctx w peerId msg).toClient) :
    (msg.operation = .Login ∨ msg.operation = .Query) ∧ (handleMsgTask env ctx w peerId msg).world = w ∧
      Told w w msg a.2 := by
  rcases hreq with hop | hop | hop | hop | hop
  · simp only [handleMsgTask, hop, handleLogin, hs] at h ⊢
    split at h
    · rename_i hin
      split at h
      · obtain rfl := List.mem_singleton.mp h
        rw [if_pos hin]
        exact ⟨Or.inl trivial,rfl,Told.loginAgain hop hin rfl rfl⟩
      · cases h
    · simp only [if_true] at h
      cases h
  · simp only [handleMsgTask, hop, handleLogout, hs, if_true] at h
    split at h
    · cases h
    · unfold Handled.forward at h
      split at h <;> cases h
  · simp only [handleMsgTask, hop, handleOperation, hs, hc, beq_self_eq_true, if_true, redirectMsgToMaster,
      Handled.forward] at h
    split at h <;> cases h
  · simp only [handleMsgTask, hop, handleOperation, hs, hc, beq_self_eq_true, if_true, redirectMsgToMaster,
      Handled.forward] at h
    split at h <;> cases h
  · simp only [handleMsgTask, hop, handleQuery] at h ⊢
    cases hq : msg.content.bind Content.asScope with
    | none =>
      simp only [hq] at h
      cases h
    | some scope =>
      simp only [hq] at h ⊢
      obtain rfl := mem_reply h
      exact ⟨Or.inr trivial,Handled.reply_world _ _ _ _,Told.query hop hq rfl rfl⟩

theorem passed_by_slave (hs : ctx.nodeType = .Slave) (hc : ctx.mode = .Cluster) (hreq : IsRequest msg.operation)
    {m : Message} (h : m ∈ (handleMsgTask env ctx w peerId msg).toMaster) :
    SlavePassed w (handleMsgTask env ctx w peerId msg).world msg m := by
  rcases hreq with hop | hop | hop | hop | hop
  · simp only [handleMsgTask, hop, handleLogin, hs] at h ⊢
    split at h
    · cases h
    · rename_i hin
      have hnone : w.clientMap.lookup msg.clientId = none := by simpa using hin
      rw [if_neg hin]
      simp only [if_true] at h ⊢
      split at h
      · obtain rfl := List.mem_singleton.mp h
        exact SlavePassed.login hop hnone rfl rfl rfl
      · cases h
  · simp only [handleMsgTask, hop, handleLogout, hs, if_true] at h ⊢
    cases hl : w.clientMap.lookup msg.clientId with
    | none =>
      simp only [hl] at h
      cases h
    | some id =>
      simp only [hl] at h ⊢
      obtain rfl := mem_forward h
      refine SlavePassed.logout hop hl ?_ rfl rfl
      rw [Handled.forward_world]
  · simp only [handleMsgTask, hop, handleOperation, hs, hc, beq_self_eq_true, if_true, redirectMsgToMaster] at h ⊢
    obtain rfl := mem_forward h
    exact SlavePassed.write (Or.inl hop) rfl rfl rfl
  · simp only [handleMsgTask, hop, handleOperation, hs, hc, beq_self_eq_true, if_true, redirectMsgToMaster] at h ⊢
    obtain rfl := mem_forward h
    exact SlavePassed.write (Or.inr hop) rfl rfl rfl
  · simp only [handleMsgTask, hop, handleQuery] at h
    split at h
    · cases h
    · unfold Handled.reply at h
      split at h <;> cases h

end

/-- `_login` of the client: the id it takes from the reply; it panics if there is none. -/
def loginUserId (reply : Message) : Option UserId :=
  match reply.content with
  | some (.text text) => Decimal.parseInt (-9223372036854775808) 9223372036854775807 text.toList
  | _ => none

/-! ## What was done between a request and its reply -/

section
variable {κ ι : Type}

/-- The step at which a handler of this server takes up the message of this origin. -/
structure Handles (S : Setup ι) (s t : PostState κ ι) (server : ServerId ι) (origin : Origin κ) (msg : Message)
    (h : Handled) : Prop where
  handled : ∃ env peerId rest, Enumerates env.order ∧
    s.letters.Perm ({ origin := origin, place := .task server peerId, msg := msg } :: rest) ∧
    h = handleMsgTask env (S.ctx server) (s.worlds server) peerId msg ∧
    t.letters = post h origin server ++ rest
  world : t.worlds server = h.world

/-- At one of the steps between these states, latest first, a handler of the server took up the
message of this origin, and this is what it did. -/
def Did (S : Setup ι) (states : List (PostState κ ι)) (server : ServerId ι) (origin : Origin κ) (msg : Message)
    (did : World → Handled → Prop) : Prop :=
  ∃ s t h, [t,s] <:+: states ∧ Handles S s t server origin msg h ∧ did (s.worlds server) h

/-- It answered this, and the answer tells what it did. -/
def Answered (msg answer : Message) (w : World) (h : Handled) : Prop :=
  answer ∈ h.toClient.map Prod.snd ∧ Told w h.world msg answer

def PassedOn (msg passed : Message) (w : World) (h : Handled) : Prop :=
  passed ∈ h.toMaster ∧ SlavePassed w h.world msg passed

/-- The oldest of these states has the request with a handler of the server its client is at. -/
def Asked (N : Connections κ ι) (states : List (PostState κ ι)) (k : κ) (origin : Origin κ) (req : Message) :
    Prop :=
  ∃ s, states.getLast? = some s ∧ ∃ l ∈ s.letters, l.origin = origin ∧
    l.place = .task (N.home k) (N.identity k) ∧ l.msg = req ∧ IsRequest req.operation

/-- The master has done what the request says, or the slave had nothing to do for it, or the
slave has passed it on and the master has done what it passed on. -/
inductive Acknowledged (S : Setup ι) (states : List (PostState κ ι)) (server : ServerId ι) (origin : Origin κ)
    (req answer : Message) : Prop
  | owner : server = none → Did S states none origin req (Answered req answer) →
      Acknowledged S states server origin req answer
  | inPlace {i : ι} : server = some i → req.operation = .Login ∨ req.operation = .Query →
      Did S states (some i) origin req (fun w h => h.world = w ∧ Answered req answer w h) →
      Acknowledged S states server origin req answer
  | through {i : ι} {passed : Message} : server = some i →
      Did S states (some i) origin req (PassedOn req passed) →
      Did S states none origin passed (Answered passed answer) →
      Acknowledged S states server origin req answer

/-- How far the request has come where a letter of its origin is now. -/
def Letter.Stage (S : Setup ι) (N : Connections κ ι) (states : List (PostState κ ι)) (k : κ) (req : Message)
    (l : Letter κ ι) : Prop :=
  match l.place with
  | .task server peerId => (server = N.home k ∧ peerId = N.identity k ∧ l.msg = req) ∨
      (server = none ∧ ∃ i, N.home k = some i ∧ Did S states (some i) l.origin req (PassedOn req l.msg))
  | .toMaster _ => ∃ i, N.home k = some i ∧ Did S states (some i) l.origin req (PassedOn req l.msg)
  | _ => Acknowledged S states (N.home k) l.origin req l.msg

def Letter.Traced (S : Setup ι) (N : Connections κ ι) (history : List (PostState κ ι)) (l : Letter κ ι) : Prop :=
  ∀ k, l.origin.client = some k → ∃ states before req, history = states ++ before ∧
    Asked N states k l.origin req ∧ l.Stage S N states k req

variable {S : Setup ι} {N : Connections κ ι} {states : List (PostState κ ι)} {s t : PostState κ ι}
  {l : Letter κ ι}

theorem Did.later {server : ServerId ι} {origin : Origin κ} {msg : Message} {did : World → Handled → Prop}
    (h : Did S states server origin msg did) (t : PostState κ ι) : Did S (t :: states) server origin msg did := by
  obtain ⟨s₁,s₂,handled,hin,hd⟩ := h
  exact ⟨s₁,s₂,handled,hin.trans (List.suffix_cons t states).isInfix,hd⟩

theorem Did.now {server : ServerId ι} {origin : Origin κ} {msg : Message} {did : World → Handled → Prop}
    {h : Handled} (hh : Handles S s t server origin msg h) (hd : did (s.worlds server) h)
    (states : List (PostState κ ι)) : Did S (t :: s :: states) server origin msg did :=
  ⟨s,t,h,(List.prefix_append [t,s] states).isInfix,hh,hd⟩

theorem Asked.later {k : κ} {origin : Origin κ} {req : Message} (h : Asked N states k origin req)
    (t : PostState κ ι) : Asked N (t :: states) k origin req := by
  obtain ⟨s,hlast,hl⟩ := h
  refine ⟨s,?_,hl⟩
  rw [List.getLast?_cons, hlast]
  rfl

theorem Acknowledged.later {server : ServerId ι} {origin : Origin κ} {req answer : Message}
    (h : Acknowledged S states server origin req answer) (t : PostState κ ι) :
    Acknowledged S (t :: states) server origin req answer := by
  cases h with
  | owner hs hd => exact Acknowledged.owner hs (hd.later t)
  | inPlace hs hop hd => exact Acknowledged.inPlace hs hop (hd.later t)
  | through hs hd hd' => exact Acknowledged.through hs (hd.later t) (hd'.later t)

theorem Letter.Stage.later {k : κ} {req : Message} (h : l.Stage S N states k req) (t : PostState κ ι) :
    l.Stage S N (t :: states) k req := by
  unfold Letter.Stage at h ⊢
  split at h
  · rcases h with h | ⟨hs,i,hi,hd⟩
    · exact Or.inl h
    · exact Or.inr ⟨hs,i,hi,hd.later t⟩
  · obtain ⟨i,hi,hd⟩ := h
    exact ⟨i,hi,hd.later t⟩
  · exact h.later t

theorem Letter.Traced.becomes {history : List (PostState κ ι)} (h : l.Traced S N (s :: history)) {x : Letter κ ι}
    (ho : x.origin = l.origin) (hx : ∀ k states req, l.origin.client = some k → IsRequest req.operation →
      l.Stage S N (s :: states) k req → x.Stage S N (t :: s :: states) k req) :
    x.Traced S N (t :: s :: history) := by
  intro k hk
  rw [ho] at hk
  obtain ⟨states,before,req,he,hasked,hstage⟩ := h k hk
  cases states with
  | nil =>
    obtain ⟨p,hp,-⟩ := hasked
    cases hp
  | cons s' states =>
    obtain ⟨rfl,rfl⟩ := List.cons_eq_cons.mp he
    have hreq : IsRequest req.operation := by
      obtain ⟨p,-,r,-,-,-,-,hreq⟩ := hasked
      exact hreq
    refine ⟨t :: s :: states,before,req,rfl,?_,hx k states req hk hreq hstage⟩
    rw [ho]
    exact hasked.later t

theorem Letter.Traced.stays {history : List (PostState κ ι)} (h : l.Traced S N (s :: history)) :
    l.Traced S N (t :: s :: history) :=
  h.becomes rfl (fun _ _ _ _ _ hstage => hstage.later t)

/-! ## The id a client logs in under -/

theorem loginUserId_of_id {answer : Message} {n id : UserId} (hc : answer.content = some (.text (toString n)))
    (h : loginUserId answer = some id) : id = n := by
  simp only [loginUserId, hc, Decimal.toList_toString] at h
  exact Decimal.eq_of_parseInt_printInt h

theorem loginUserId_of_again {answer : Message} (hc : answer.content = some (.text "user has logined")) :
    loginUserId answer = none := by
  simp only [loginUserId, hc]
  decide

theorem login_of_answered {req answer : Message} {w : World} {h : Handled} (ha : Answered req answer w h)
    (hop : req.operation = .Login) {id : UserId} (hid : loginUserId answer = some id) :
    (w.clientMap.lookup req.clientId = none ∧ h.world.clientMap = w.clientMap.insert req.clientId id) ∧
    ∃ user : User, user.id = id ∧ Adds user w h.world := by
  cases ha.2 with
  | loginAgain _ _ _ hc =>
    rw [loginUserId_of_again hc] at hid
    cases hid
  | login _ hnone hins hadds hc =>
    obtain rfl := loginUserId_of_id hc hid
    exact ⟨⟨hnone,hins⟩,_,rfl,hadds⟩
  | logout hno | addUser hno | delUser hno | aoe hno | setVelocity hno | query hno =>
    rw [hop] at hno
    cases hno

theorem login_of_passed {req passed : Message} {w : World} {h : Handled} (hp : PassedOn req passed w h)
    (hop : req.operation = .Login) : ∃ user : User, passed.operation = .AddUser ∧
      passed.content.bind Content.asUser = some user ∧ w.clientMap.lookup req.clientId = none ∧
      h.world.clientMap = w.clientMap.insert req.clientId user.id := by
  cases hp.2 with
  | @login user _ hnone hins hadd hcontent =>
    refine ⟨user,hadd,?_,hnone,hins⟩
    rw [hcontent]
    rfl
  | logout hno =>
    rw [hop] at hno
    cases hno
  | write hno =>
    rw [hop] at hno
    rcases hno with hno | hno <;> cases hno

theorem addUser_of_answered {msg answer : Message} {w : World} {h : Handled} (ha : Answered msg answer w h)
    (hop : msg.operation = .AddUser) {user : User} (hu : msg.content.bind Content.asUser = some user) :
    answer.content = some (.text (toString user.id)) ∧ Adds user w h.world := by
  cases ha.2 with
  | addUser _ huser hw hc =>
    obtain rfl := Option.some.inj (hu.symm.trans huser)
    rw [hw]
    exact ⟨hc,rfl,rfl⟩
  | loginAgain hno | login hno | logout hno | delUser hno | aoe hno | setVelocity hno | query hno =>
    rw [hop] at hno
    cases hno

/-- A login that is told a number has started a session under it, and the master has its user. -/
theorem login_did {server : ServerId ι} {origin : Origin κ} {req answer : Message}
    (h : Acknowledged S states server origin req answer) (hop : req.operation = .Login) {id : UserId}
    (hid : loginUserId answer = some id) :
    Did S states server origin req (fun w h => w.clientMap.lookup req.clientId = none ∧
      h.world.clientMap = w.clientMap.insert req.clientId id) ∧
    ∃ user : User, user.id = id ∧ ∃ msg, Did S states none origin msg (fun w h => Adds user w h.world) := by
  cases h with
  | owner hs hd =>
    subst hs
    obtain ⟨s,t,handled,hin,hh,ha⟩ := hd
    obtain ⟨hsession,user,hu,hadds⟩ := login_of_answered ha hop hid
    exact ⟨⟨s,t,handled,hin,hh,hsession⟩,user,hu,req,s,t,handled,hin,hh,hadds⟩
  | inPlace hs _ hd =>
    subst hs
    obtain ⟨s,t,handled,hin,hh,hsame,ha⟩ := hd
    obtain ⟨⟨hnone,hins⟩,-⟩ := login_of_answered ha hop hid
    rw [← hsame, hins, AList.lookup_insert] at hnone
    cases hnone
  | @through i passed hs hpassed hd =>
    subst hs
    obtain ⟨s,t,handled,hin,hh,hp⟩ := hpassed
    obtain ⟨s',t',handled',hin',hh',ha⟩ := hd
    obtain ⟨user,hadd,huser,hnone,hins⟩ := login_of_passed hp hop
    obtain ⟨hc,hadds⟩ := addUser_of_answered ha hadd huser
    obtain rfl := loginUserId_of_id hc hid
    exact ⟨⟨s,t,handled,hin,hh,hnone,hins⟩,user,rfl,passed,s',t',handled',hin',hh',hadds⟩

/-! ## Along a run -/

theorem traced_post {history : List (PostState κ ι)} (h : l.Traced S N (s :: history))
    {server : ServerId ι} {peerId : PeerIdentity} (hplace : l.place = .task server peerId) {env : Surroundings}
    (horder : Enumerates env.order) (hh : Handles S s t server l.origin l.msg
      (handleMsgTask env (S.ctx server) (s.worlds server) peerId l.msg)) :
    ∀ x ∈ post (handleMsgTask env (S.ctx server) (s.worlds server) peerId l.msg) l.origin server,
      x.Traced S N (t :: s :: history) := by
  have hmaster : (S.ctx none).nodeType = .Master := S.masterType
  intro x hx
  rcases List.mem_append.mp hx with hx | hx
  · obtain ⟨a,ha,rfl⟩ := List.mem_map.mp hx
    refine h.becomes rfl ?_
    intro k states req hk hreq hstage
    simp only [Letter.Stage, hplace] at hstage ⊢
    rcases hstage with ⟨rfl,rfl,rfl⟩ | ⟨rfl,i,hi,hpassed⟩
    · cases hhome : N.home k with
      | none =>
        rw [hhome] at hh ha
        exact Acknowledged.owner rfl
          (Did.now hh ⟨List.mem_map_of_mem ha,told_by_master hmaster horder ha⟩ states)
      | some i =>
        rw [hhome] at hh ha
        obtain ⟨hop,hsame,htold⟩ := told_by_slave (S.slaveType i) (S.slaveMode i) hreq ha
        refine Acknowledged.inPlace rfl hop (Did.now hh ⟨hsame,List.mem_map_of_mem ha,?_⟩ states)
        rw [hsame]
        exact htold
    · exact Acknowledged.through hi (hpassed.later t)
        (Did.now hh ⟨List.mem_map_of_mem ha,told_by_master hmaster horder ha⟩ states)
  · obtain ⟨m,hm,rfl⟩ := List.mem_map.mp hx
    refine h.becomes rfl ?_
    intro k states req hk hreq hstage
    have hslave : (S.ctx server).nodeType = .Slave := by
      cases sends_handleMsgTask env (S.ctx server) (s.worlds server) peerId l.msg with
      | nothing _ hnone =>
        rw [hnone] at hm
        cases hm
      | answers _ hnone _ =>
        rw [hnone] at hm
        cases hm
      | passes _ _ hpass => exact hpass.1
    obtain ⟨i,rfl⟩ := exists_of_slave hslave
    simp only [Letter.Stage, hplace] at hstage ⊢
    rcases hstage with ⟨hhome,rfl,rfl⟩ | ⟨hno,-⟩
    · exact ⟨i,hhome.symm,
        Did.now hh ⟨hm,passed_by_slave (S.slaveType i) (S.slaveMode i) hreq hm⟩ states⟩
    · cases hno

section
variable {history : List (PostState κ ι)} {rest : List (Letter κ ι)}

theorem traced_rest (h : ∀ l ∈ s.letters, l.Traced S N (s :: history)) (hp : s.letters.Perm (l :: rest)) :
    ∀ x ∈ rest, x.Traced S N (t :: s :: history) :=
  fun x hx => (h x (hp.mem_iff.mpr (List.mem_cons_of_mem l hx))).stays

theorem traced_moved (h : ∀ l ∈ s.letters, l.Traced S N (s :: history)) (hp : s.letters.Perm (l :: rest))
    {l' : Letter κ ι} (ho : l'.origin = l.origin) (hstage : ∀ k states req, l.Stage S N (s :: states) k req →
      l'.Stage S N (t :: s :: states) k req) : ∀ x ∈ l' :: rest, x.Traced S N (t :: s :: history) := by
  intro x hx
  rcases List.mem_cons.mp hx with rfl | hx
  · have hl : l.Traced S N (s :: history) := h l (hp.mem_iff.mpr List.mem_cons_self)
    exact hl.becomes ho (fun k states req _ _ hs => hstage k states req hs)
  · exact traced_rest h hp x hx

end

variable [DecidableEq ι]

theorem traced_step {history : List (PostState κ ι)} (h : ∀ l ∈ s.letters, l.Traced S N (s :: history))
    (hst : PostStep S N s t) : ∀ l ∈ t.letters, l.Traced S N (t :: s :: history) := by
  cases hst with
  | @request k msg hop hback =>
    intro x hx
    rcases List.mem_cons.mp hx with rfl | hx
    · intro k' hk'
      obtain rfl := Option.some.inj hk'
      exact ⟨[_],_,msg,rfl,⟨_,rfl,_,List.mem_cons_self,rfl,rfl,rfl,hop⟩,Or.inl ⟨rfl,rfl,rfl⟩⟩
    · exact (h x hx).stays
  | @handle l rest server peerId env horder hp hplace =>
    have hl : l ∈ s.letters := hp.mem_iff.mpr List.mem_cons_self
    have hp' : s.letters.Perm ({ origin := l.origin, place := .task server peerId, msg := l.msg } :: rest) := by
      rw [← hplace]
      exact hp
    intro x hx
    rcases List.mem_append.mp hx with hx | hx
    · exact traced_post (h l hl) hplace horder
        ⟨⟨env,peerId,rest,horder,hp',rfl,rfl⟩,Function.update_self _ _ _⟩ x hx
    · exact traced_rest h hp x hx
  | expire server clientId =>
    intro x hx
    rcases List.mem_append.mp hx with hx | hx
    · obtain ⟨-,ho⟩ := post_one (sends_removeOfflineClient (S.ctx server) (s.worlds server) clientId "")
        { client := (none : Option κ), number := s.started } server
      intro k hk
      rw [ho x hx] at hk
      cases hk
    · exact (h x hx).stays
  | @deliver l rest k hp hplace =>
    refine traced_moved h hp (by rfl) ?_
    intro k' states req hstage
    simp only [Letter.Stage, hplace] at hstage ⊢
    exact hstage.later _
  | @answer l rest i hp hplace =>
    refine traced_moved h hp (by rfl) ?_
    intro k' states req hstage
    simp only [Letter.Stage, hplace] at hstage ⊢
    exact hstage.later _
  | @forward l rest i hp hplace =>
    refine traced_moved h hp (by rfl) ?_
    intro k' states req hstage
    simp only [Letter.Stage, hplace] at hstage ⊢
    obtain ⟨j,hj,hd⟩ := hstage
    exact Or.inr ⟨trivial,j,hj,hd.later _⟩
  | @relay l rest i hp hplace =>
    have hl : l ∈ s.letters := hp.mem_iff.mpr List.mem_cons_self
    intro x hx
    rcases List.mem_append.mp hx with hx | hx
    · obtain ⟨answer,ha,rfl⟩ := List.mem_map.mp hx
      obtain ⟨clientPeerId,-,rfl⟩ := Option.map_eq_some_iff.mp (Option.mem_toList.mp ha)
      refine (h l hl).becomes rfl ?_
      intro k' states req _ _ hstage
      simp only [Letter.Stage, hplace] at hstage ⊢
      exact hstage.later _
    · exact traced_rest h hp x hx
  | @lose l rest hp => exact traced_rest h hp
  | world server w => exact fun x hx => (h x hx).stays

theorem traced_of_run {past : List (PostState κ ι × Unit)} (h : Run (postLts S N) past s) :
    ∀ l ∈ s.letters, l.Traced S N (s :: past.map Prod.fst) := by
  induction h with
  | start hs =>
    obtain rfl := hs
    exact fun l hl => by cases hl
  | next _ hst ih => exact traced_step ih hst

/-- Whatever else goes on in the cluster, a client that receives a reply has asked for it, and
since it asked the server that owns the world has done what it asked. A client that takes a number
for its user id is logged in under it at its server, and the master has added this user. -/
theorem replies_earned {past : List (PostState κ ι × Unit)} (h : Run (postLts S N) past s)
    {d : κ × Letter κ ι} (hd : d ∈ s.delivered) :
    ∃ states before req, s :: past.map Prod.fst = states ++ before ∧ Asked N states d.1 d.2.origin req ∧
      Acknowledged S states (N.home d.1) d.2.origin req d.2.msg ∧
      (req.operation = .Login → ∀ id, loginUserId d.2.msg = some id →
        Did S states (N.home d.1) d.2.origin req (fun w h => w.clientMap.lookup req.clientId = none ∧
          h.world.clientMap = w.clientMap.insert req.clientId id) ∧
        ∃ user : User, user.id = id ∧
          ∃ msg, Did S states none d.2.origin msg (fun w h => Adds user w h.world)) := by
  obtain ⟨hl,hplace⟩ := mem_delivered.mp hd
  have hr := (inv_of_reachable ⟨past,h⟩).routed d.2 hl
  simp only [Letter.Routed, hplace] at hr
  obtain ⟨states,before,req,he,hasked,hstage⟩ := traced_of_run h d.2 hl d.1 hr.2
  simp only [Letter.Stage, hplace] at hstage
  exact ⟨states,before,req,he,hasked,hstage,fun hop id hid => login_did hstage hop hid⟩

end

def masterClient : Connections Unit Unit := { oneClient with home := fun _ => none }

theorem replies_earned_login : ∃ past s, ∃ d : Unit × Letter Unit Unit,
    Run (postLts pairSetup masterClient) past s ∧ d ∈ s.delivered ∧ loginUserId d.2.msg = some 2 ∧ ∃ states before req,
      s :: past.map Prod.fst = states ++ before ∧ Acknowledged pairSetup states none d.2.origin req d.2.msg := by
  let origin : Origin Unit := { client := some (), number := 0 }
  have hr₀ : Run (postLts pairSetup masterClient) [] (PostState.start pairSetup) := Run.start rfl
  have hr₁ := hr₀.next (a := ())
    (@PostStep.request _ _ _ pairSetup masterClient _ () (Message.login "client") (Or.inl rfl) rfl)
  obtain ⟨past₂,s₂,hr₂,hl₂⟩ : ∃ past s, Run (postLts pairSetup masterClient) past s ∧ s.letters =
      [{ origin := origin, place := .toClient none "client", msg := Message.resp (toString (2 : ℤ)) }] := by
    refine ⟨_,_,hr₁.next (a := ()) (PostStep.handle .plain enumerates_values (List.Perm.refl _) rfl),?_⟩
    rfl
  obtain ⟨past,s,hr,hl⟩ : ∃ past s, Run (postLts pairSetup masterClient) past s ∧ s.letters =
      [{ origin := origin, place := .client (), msg := Message.resp (toString (2 : ℤ)) }] :=
    ⟨_,_,hr₂.next (a := ())
      (@PostStep.deliver _ _ _ pairSetup masterClient _ _ _ () (List.Perm.of_eq hl₂) rfl),rfl⟩
  let d : Unit × Letter Unit Unit :=
    ((),{ origin := origin, place := .client (), msg := Message.resp (toString (2 : ℤ)) })
  have hd : d ∈ s.delivered := by
    apply mem_delivered.mpr
    rw [hl]
    exact ⟨List.mem_singleton_self _,rfl⟩
  obtain ⟨states,before,req,he,-,hack,-⟩ := replies_earned hr hd
  exact ⟨past,s,d,hr,hd,by decide,states,before,req,he,hack⟩

end GameServer.Cluster
