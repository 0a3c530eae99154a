import GameServer.Cluster.Forwarding
import GameServer.Cluster.SessionAgreement
import GameServer.Library.Pool

/-! # Where the replies go

Every message in the cluster was set off by one request of a client or by one expired
heartbeat. Following the messages from place to place shows who can receive the last one:
a request travels under the identity of its client, written on the outside or, once a
slave has passed it on, inside the message.
-/
namespace GameServer.Cluster
open Common CommonServer Library Server

structure Connections (κ ι : Type) where
  home : κ → ServerId ι
  identity : κ → PeerIdentity
  /-- the identity a slave chooses for its connection to the master -/
  socketId : ι → PeerIdentity
  identity_injective : Function.Injective identity
  socketId_injective : Function.Injective socketId
  apart : ∀ k i, identity k ≠ socketId i

/-- What set a message off: the request of a client, or an expired heartbeat; numbered as
they occur. -/
structure Origin (κ : Type) where
  client : Option κ
  number : ℕ
deriving DecidableEq

/-- Where a message is: with a spawned handler that knows the peer it came from, in a
channel of a server, on the socket from the master to a slave, or with a client. -/
inductive Place (κ ι : Type)
  | task (server : ServerId ι) (peerId : PeerIdentity)
  | toClient (server : ServerId ι) (peerId : PeerIdentity)
  | toMaster (server : ServerId ι)
  | fromMaster (i : ι)
  | client (k : κ)

structure Letter (κ ι : Type) where
  origin : Origin κ
  place : Place κ ι
  msg : Message

def post {κ ι : Type} (h : Handled) (origin : Origin κ) (server : ServerId ι) : List (Letter κ ι) :=
  h.toClient.map (fun answer => { origin := origin, place := .toClient server answer.1, msg := answer.2 }) ++
    h.toMaster.map (fun msg => { origin := origin, place := .toMaster server, msg := msg })

structure PostState (κ ι : Type) where
  worlds : ServerId ι → World
  letters : List (Letter κ ι)
  started : ℕ

def IsRequest (operation : Operation) : Prop :=
  operation = .Login ∨ operation = .Logout ∨ operation = .Aoe ∨ operation = .SetVelocity ∨
    operation = .Query

def IsForwarded (operation : Operation) : Prop :=
  operation = .AddUser ∨ operation = .DelUser ∨ operation = .Aoe ∨ operation = .SetVelocity

def IsAnswer (operation : Operation) : Prop := operation = .Reply ∨ operation = .QueryResp

section
variable {κ ι : Type} [DecidableEq ι] (S : Setup ι) (N : Connections κ ι)

def PostState.start : PostState κ ι where
  worlds i := World.init (S.conf i)
  letters := []
  started := 0

/-- One step of one party. A letter that is taken up leaves its place; channels may hand
out their letters in any order, and any letter may get lost. -/
inductive PostStep : PostState κ ι → PostState κ ι → Prop
  | request {s : PostState κ ι} (k : κ) {msg : Message} : IsRequest msg.operation →
      msg.clientPeerId = none →
      PostStep s { s with
        letters := { origin := { client := some k, number := s.started }
                     place := .task (N.home k) (N.identity k), msg := msg } :: s.letters
        started := s.started + 1 }
  /-- a handler runs, going through a map in any order -/
  | handle {s : PostState κ ι} {l : Letter κ ι} {rest : List (Letter κ ι)} {server : ServerId ι}
      {peerId : PeerIdentity} (env : Surroundings) : Enumerates env.order →
      s.letters.Perm (l :: rest) → l.place = .task server peerId →
      PostStep s { s with
        worlds := Function.update s.worlds server
          (handleMsgTask env (S.ctx server) (s.worlds server) peerId l.msg).world
        letters := post (handleMsgTask env (S.ctx server) (s.worlds server) peerId l.msg) l.origin server ++
          rest }
  | expire {s : PostState κ ι} (server : ServerId ι) (clientId : String) :
      PostStep s { worlds := Function.update s.worlds server
                     (removeOfflineClient (S.ctx server) (s.worlds server) clientId).world
                   letters := post (removeOfflineClient (S.ctx server) (s.worlds server) clientId)
                     { client := none, number := s.started } server ++ s.letters
                   started := s.started + 1 }
  /-- `main_channel_thread` sends an answer and the router finds its client -/
  | deliver {s : PostState κ ι} {l : Letter κ ι} {rest : List (Letter κ ι)} {k : κ} :
      s.letters.Perm (l :: rest) → l.place = .toClient (N.home k) (N.identity k) →
      PostStep s { s with letters := { l with place := .client k } :: rest }
  /-- `main_channel_thread` of the master sends an answer and the router finds a slave -/
  | answer {s : PostState κ ι} {l : Letter κ ι} {rest : List (Letter κ ι)} {i : ι} :
      s.letters.Perm (l :: rest) → l.place = .toClient none (N.socketId i) →
      PostStep s { s with letters := { l with place := .fromMaster i } :: rest }
  /-- `forward_master_slave_client_thread` sends a message to the master -/
  | forward {s : PostState κ ι} {l : Letter κ ι} {rest : List (Letter κ ι)} {i : ι} :
      s.letters.Perm (l :: rest) → l.place = .toMaster (some i) →
      PostStep s { s with letters := { l with place := .task none (N.socketId i) } :: rest }
  /-- `forward_master_slave_client_thread` takes an answer of the master -/
  | relay {s : PostState κ ι} {l : Letter κ ι} {rest : List (Letter κ ι)} {i : ι} :
      s.letters.Perm (l :: rest) → l.place = .fromMaster i →
      PostStep s { s with letters := (relay l.msg).toList.map (fun answer =>
        { origin := l.origin, place := .toClient (some i) answer.1, msg := answer.2 }) ++ rest }
  /-- a send fails, a task panics before it starts, or no peer has the identity -/
  | lose {s : PostState κ ι} {l : Letter κ ι} {rest : List (Letter κ ι)} :
      s.letters.Perm (l :: rest) → PostStep s { s with letters := rest }
  /-- a world update, a snapshot, or another enumeration order -/
  | world {s : PostState κ ι} (server : ServerId ι) (w : World) :
      PostStep s { s with worlds := Function.update s.worlds server w }

def postLts : Lts (PostState κ ι) Unit where
  init s := s = PostState.start S
  step s _ t := PostStep S N s t

end

/-! ## What a handler sends -/

/-- A handler sends nothing, answers its peer once, or passes one message on to the master. -/
inductive Sends (peerId : PeerIdentity) (answer pass : Message → Prop) (h : Handled) : Prop
  | nothing : h.toClient = [] → h.toMaster = [] → Sends peerId answer pass h
  | answers {m : Message} : h.toClient = [(peerId,m)] → h.toMaster = [] → answer m →
      Sends peerId answer pass h
  | passes {m : Message} : h.toClient = [] → h.toMaster = [m] → pass m → Sends peerId answer pass h

section
variable {peerId : PeerIdentity} {answer pass : Message → Prop} (ctx : ServerContext)

theorem sends_panicked (w : World) (e : Panic) : Sends peerId answer pass (Handled.panicked w e) :=
  Sends.nothing rfl rfl

theorem sends_reply (w : World) {m : Message} (hm : answer m) :
    Sends peerId answer pass (Handled.reply ctx w peerId m) := by
  unfold Handled.reply
  split
  · exact Sends.answers rfl rfl hm
  · exact sends_panicked w _

theorem sends_forward (w : World) {m : Message} (hm : pass m) :
    Sends peerId answer pass (Handled.forward ctx w m) := by
  unfold Handled.forward
  split
  · exact Sends.passes rfl rfl hm
  · exact sends_panicked w _

theorem sends_handleOperation (isCluster : Bool) {inSelfWorld inSlave : Handled}
    (hself : Sends peerId answer pass inSelfWorld)
    (hslave : ctx.nodeType = .Slave → Sends peerId answer pass inSlave) :
    Sends peerId answer pass
      (handleOperation isCluster (ctx.nodeType == NodeType.Slave) inSelfWorld inSlave) := by
  unfold handleOperation
  split
  · split
    · rename_i hs
      exact hslave (eq_of_beq hs)
    · exact hself
  · exact hself

theorem sends_after {o : Outcome Panic World} {next : World → Handled}
    (h : ∀ w, Sends peerId answer pass (next w)) : Sends peerId answer pass (Handled.after o next) := by
  unfold Handled.after
  split
  · exact sends_panicked o.state _
  · exact h o.state

end

/-- The answer a handler gives: under the identity inside a message a slave has passed on. -/
def GoodAnswer (msg m : Message) : Prop :=
  IsAnswer m.operation ∧ (IsForwarded msg.operation → m.clientPeerId = msg.clientPeerId)

def GoodPass (ctx : ServerContext) (peerId : PeerIdentity) (m : Message) : Prop :=
  ctx.nodeType = .Slave ∧ IsForwarded m.operation ∧ m.clientPeerId = some peerId

theorem sends_handleMsgTask (env : Surroundings) (ctx : ServerContext) (w : World) (peerId : PeerIdentity)
    (msg : Message) :
    Sends peerId (GoodAnswer msg) (GoodPass ctx peerId) (handleMsgTask env ctx w peerId msg) := by
  have hresp : ∀ content, (IsForwarded msg.operation → none = msg.clientPeerId) →
      GoodAnswer msg (Message.resp content) := fun _ h => ⟨Or.inl rfl,h⟩
  have hback : ∀ content, GoodAnswer msg ((Message.resp content).setPeerIdOpt msg.clientPeerId) :=
    fun _ => ⟨Or.inl rfl,fun _ => rfl⟩
  cases hop : msg.operation with
  | Login =>
    have hno : IsForwarded msg.operation → none = msg.clientPeerId := by simp [IsForwarded, hop]
    simp only [handleMsgTask, hop, handleLogin]
    split
    · by_cases ha : ctx.toClientSender.alive
      · exact Sends.answers (by rw [if_pos ha]) rfl (hresp _ hno)
      · exact Sends.nothing (by rw [if_neg ha]) rfl
    · split
      · rename_i hs
        by_cases ha : ctx.toMasterSender.alive
        · exact Sends.passes rfl (by rw [if_pos ha]) ⟨hs,Or.inl rfl,rfl⟩
        · exact Sends.nothing rfl (by rw [if_neg ha])
      · exact sends_reply ctx _ (hresp _ hno)
  | Logout =>
    have hno : IsForwarded msg.operation → none = msg.clientPeerId := by simp [IsForwarded, hop]
    simp only [handleMsgTask, hop, handleLogout]
    split
    · rename_i hs
      split
      · exact sends_panicked w _
      · exact sends_forward ctx _ ⟨hs,Or.inr (Or.inl rfl),rfl⟩
    · exact sends_after (fun w => sends_reply ctx w (hresp _ hno))
  | AddUser =>
    simp only [handleMsgTask, hop, handleAddUser]
    split
    · exact sends_panicked w _
    · exact sends_reply ctx _ (hback _)
  | DelUser =>
    simp only [handleMsgTask, hop, handleDelUser]
    split
    · exact sends_panicked w _
    · exact sends_after (fun w => sends_reply ctx w (hback _))
  | Aoe =>
    simp only [handleMsgTask, hop]
    refine sends_handleOperation ctx _ ?_ ?_
    · unfold doAoeInSelfWorld
      split
      · exact sends_panicked w _
      · split
        · exact sends_panicked w _
        · exact sends_after (fun w => sends_reply ctx w (hback _))
    · exact fun hs => sends_forward ctx w ⟨hs,Or.inr (Or.inr (Or.inl hop)),rfl⟩
  | SetVelocity =>
    simp only [handleMsgTask, hop]
    refine sends_handleOperation ctx _ ?_ ?_
    · unfold doSetVelocityInSelfWorld
      split
      · exact sends_panicked w _
      · split
        · exact sends_panicked w _
        · exact sends_reply ctx _ (hback _)
    · exact fun hs => sends_forward ctx w ⟨hs,Or.inr (Or.inr (Or.inr hop)),rfl⟩
  | Query =>
    have hno : IsForwarded msg.operation → none = msg.clientPeerId := by simp [IsForwarded, hop]
    simp only [handleMsgTask, hop, handleQuery]
    split
    · exact sends_panicked w _
    · exact sends_reply ctx w ⟨Or.inr rfl,hno⟩
  | _ =>
    simp only [handleMsgTask, hop]
    exact Sends.nothing rfl rfl

theorem sends_removeOfflineClient (ctx : ServerContext) (w : World) (clientId : String) (peerId : PeerIdentity) :
    Sends peerId (fun _ => False)
      (fun m => ctx.nodeType = .Slave ∧ IsForwarded m.operation ∧ m.clientPeerId = none)
      (removeOfflineClient ctx w clientId) := by
  unfold removeOfflineClient
  split
  · exact sends_after (fun _ => Sends.nothing rfl rfl)
  · rename_i hs
    split
    · exact Sends.nothing rfl rfl
    · exact sends_forward ctx _ ⟨hs,Or.inr (Or.inl rfl),rfl⟩

/-! ## Where a letter may be -/

section
variable {κ ι : Type}

/-- A message between a slave and the master names the client it belongs to, if any. -/
def Letter.Returns (N : Connections κ ι) (l : Letter κ ι) (i : ι) : Prop :=
  match l.origin.client with
  | none => l.msg.clientPeerId = none
  | some k => N.home k = some i ∧ l.msg.clientPeerId = some (N.identity k)

def Letter.Direct (N : Connections κ ι) (l : Letter κ ι) (server : ServerId ι) (peerId : PeerIdentity) : Prop :=
  ∃ k, l.origin.client = some k ∧ N.home k = server ∧ N.identity k = peerId

def Letter.Through (N : Connections κ ι) (l : Letter κ ι) (server : ServerId ι) (peerId : PeerIdentity) : Prop :=
  ∃ i, server = none ∧ peerId = N.socketId i ∧ l.Returns N i

def Letter.Routed (N : Connections κ ι) (l : Letter κ ι) : Prop :=
  match l.place with
  | .task server peerId => (l.Direct N server peerId ∧ l.msg.clientPeerId = none) ∨
      (l.Through N server peerId ∧ IsForwarded l.msg.operation)
  | .toClient server peerId => IsAnswer l.msg.operation ∧
      (l.Direct N server peerId ∨ l.Through N server peerId)
  | .toMaster server => ∃ i, server = some i ∧ IsForwarded l.msg.operation ∧ l.Returns N i
  | .fromMaster i => IsAnswer l.msg.operation ∧ l.Returns N i
  | .client k => IsAnswer l.msg.operation ∧ l.origin.client = some k

structure PostState.Inv (N : Connections κ ι) (s : PostState κ ι) : Prop where
  routed : ∀ l ∈ s.letters, l.Routed N
  distinct : (s.letters.map Letter.origin).Nodup
  started : ∀ l ∈ s.letters, l.origin.number < s.started

namespace PostState.Inv
variable {N : Connections κ ι} {s : PostState κ ι}

theorem replace (h : s.Inv N) {l : Letter κ ι} {rest out : List (Letter κ ι)}
    (hp : s.letters.Perm (l :: rest)) (hone : out.length ≤ 1) (ho : ∀ x ∈ out, x.origin = l.origin)
    (hr : ∀ x ∈ out, x.Routed N) (worlds : ServerId ι → World) :
    ({ s with worlds := worlds, letters := out ++ rest } : PostState κ ι).Inv N := by
  have hin : ∀ x ∈ l :: rest, x ∈ s.letters := fun x hx => hp.mem_iff.mpr hx
  have hnd : ((l :: rest).map Letter.origin).Nodup := (hp.map Letter.origin).nodup_iff.mp h.distinct
  refine ⟨?_,?_,?_⟩
  · intro x hx
    rcases List.mem_append.mp hx with hx | hx
    · exact hr x hx
    · exact h.routed x (hin x (List.mem_cons_of_mem l hx))
  · exact Pool.nodup_exchange hone ho hnd
  · intro x hx
    rcases List.mem_append.mp hx with hx | hx
    · rw [ho x hx]
      exact h.started l (hin l List.mem_cons_self)
    · exact h.started x (hin x (List.mem_cons_of_mem l hx))

theorem move (h : s.Inv N) {l x : Letter κ ι} {rest : List (Letter κ ι)} (hp : s.letters.Perm (l :: rest))
    (ho : x.origin = l.origin) (hr : x.Routed N) :
    ({ s with letters := x :: rest } : PostState κ ι).Inv N := by
  have hone : [x].length ≤ 1 := le_rfl
  refine h.replace hp hone ?_ ?_ s.worlds
  · intro y hy
    rw [List.mem_singleton.mp hy, ho]
  · intro y hy
    rw [List.mem_singleton.mp hy]
    exact hr

theorem start (h : s.Inv N) {out : List (Letter κ ι)} (hone : out.length ≤ 1)
    (ho : ∀ x ∈ out, x.origin.number = s.started) (hr : ∀ x ∈ out, x.Routed N)
    (worlds : ServerId ι → World) :
    ({ worlds := worlds, letters := out ++ s.letters, started := s.started + 1 } : PostState κ ι).Inv N := by
  refine ⟨?_,?_,?_⟩
  · intro x hx
    rcases List.mem_append.mp hx with hx | hx
    · exact hr x hx
    · exact h.routed x hx
  · apply Pool.nodup_add hone _ h.distinct
    intro x hx y hy he
    have hlt := h.started y hy
    rw [he, ho x hx] at hlt
    omega
  · intro x hx
    rcases List.mem_append.mp hx with hx | hx
    · have := ho x hx
      show x.origin.number < s.started + 1
      omega
    · have := h.started x hx
      show x.origin.number < s.started + 1
      omega

end PostState.Inv

theorem post_cases {peerId : PeerIdentity} {answer pass : Message → Prop} {h : Handled}
    (hs : Sends peerId answer pass h) (origin : Origin κ) (server : ServerId ι) :
    post h origin server = [] ∨
    (∃ m, answer m ∧ post h origin server =
      [{ origin := origin, place := .toClient server peerId, msg := m }]) ∨
    ∃ m, pass m ∧ post h origin server = [{ origin := origin, place := .toMaster server, msg := m }] := by
  unfold post
  cases hs with
  | nothing hc hm =>
    rw [hc, hm]
    exact Or.inl rfl
  | @answers m hc hm ha =>
    rw [hc, hm]
    exact Or.inr (Or.inl ⟨m,ha,rfl⟩)
  | @passes m hc hm hp =>
    rw [hc, hm]
    exact Or.inr (Or.inr ⟨m,hp,rfl⟩)

theorem post_one {peerId : PeerIdentity} {answer pass : Message → Prop} {h : Handled}
    (hs : Sends peerId answer pass h) (origin : Origin κ) (server : ServerId ι) :
    (post h origin server).length ≤ 1 ∧ ∀ x ∈ post h origin server, x.origin = origin := by
  rcases post_cases hs origin server with he | ⟨m,-,he⟩ | ⟨m,-,he⟩ <;> rw [he] <;> simp

variable {S : Setup ι} {N : Connections κ ι}

theorem exists_of_slave {server : ServerId ι} (h : (S.ctx server).nodeType = .Slave) :
    ∃ i, server = some i := by
  cases server with
  | none =>
    have hm : (S.ctx none).nodeType = .Master := S.masterType
    rw [hm] at h
    cases h
  | some i => exact ⟨i,rfl⟩

theorem routed_post {l : Letter κ ι} {server : ServerId ι} {peerId : PeerIdentity}
    (hl : l.Routed N) (hplace : l.place = .task server peerId) {h : Handled}
    (hs : Sends peerId (GoodAnswer l.msg) (GoodPass (S.ctx server) peerId) h) :
    ∀ x ∈ post h l.origin server, x.Routed N := by
  simp only [Letter.Routed, hplace] at hl
  rcases post_cases hs l.origin server with he | ⟨m,⟨hans,hback⟩,he⟩ | ⟨m,⟨hslave,hfwd,hin⟩,he⟩
  · rw [he]
    exact fun x hx => by cases hx
  · rw [he]
    intro x hx
    obtain rfl := List.mem_singleton.mp hx
    refine ⟨hans,?_⟩
    rcases hl with ⟨hd,-⟩ | ⟨⟨i,hsv,hp,hr⟩,hfwd⟩
    · exact Or.inl hd
    · refine Or.inr ⟨i,hsv,hp,?_⟩
      unfold Letter.Returns at hr ⊢
      rw [hback hfwd]
      exact hr
  · rw [he]
    intro x hx
    obtain rfl := List.mem_singleton.mp hx
    obtain ⟨i,rfl⟩ := exists_of_slave hslave
    rcases hl with ⟨⟨k,hk,hhome,hid⟩,-⟩ | ⟨⟨j,hsv,-,-⟩,-⟩
    · refine ⟨i,rfl,hfwd,?_⟩
      simp only [Letter.Returns, hk]
      exact ⟨hhome,by rw [hin, hid]⟩
    · cases hsv

theorem routed_expire {server : ServerId ι} {peerId : PeerIdentity} {h : Handled} {n : ℕ}
    (hs : Sends peerId (fun _ => False)
      (fun m => (S.ctx server).nodeType = .Slave ∧ IsForwarded m.operation ∧ m.clientPeerId = none) h) :
    ∀ x ∈ post h { client := (none : Option κ), number := n } server, x.Routed N := by
  rcases post_cases hs { client := (none : Option κ), number := n } server with
    he | ⟨m,hno,-⟩ | ⟨m,⟨hslave,hfwd,hback⟩,he⟩
  · rw [he]
    exact fun x hx => by cases hx
  · exact absurd hno id
  · rw [he]
    intro x hx
    obtain rfl := List.mem_singleton.mp hx
    obtain ⟨i,rfl⟩ := exists_of_slave hslave
    exact ⟨i,rfl,hfwd,hback⟩

/-- The relay addresses an answer to the client it belongs to, and drops one for nobody. -/
theorem routed_relay {l : Letter κ ι} {i : ι} (hl : l.Routed N) (hplace : l.place = .fromMaster i) :
    ∀ x ∈ (relay l.msg).toList.map (fun answer =>
      ({ origin := l.origin, place := .toClient (some i) answer.1, msg := answer.2 } : Letter κ ι)),
      x.Routed N := by
  simp only [Letter.Routed, hplace] at hl
  obtain ⟨hans,hr⟩ := hl
  intro x hx
  obtain ⟨answer,ha,rfl⟩ := List.mem_map.mp hx
  rw [Option.mem_toList] at ha
  obtain ⟨clientPeerId,hc,rfl⟩ := Option.map_eq_some_iff.mp ha
  refine ⟨hans,Or.inl ?_⟩
  unfold Letter.Returns at hr
  cases hk : l.origin.client with
  | none =>
    simp only [hk] at hr
    rw [hc] at hr
    cases hr
  | some k =>
    simp only [hk] at hr
    rw [hc] at hr
    exact ⟨k,hk,hr.1,(Option.some.inj hr.2).symm⟩

theorem PostState.Inv.of_step [DecidableEq ι] {s t : PostState κ ι} (h : s.Inv N) (hst : PostStep S N s t) :
    t.Inv N := by
  have hmem : ∀ {l : Letter κ ι} {rest : List (Letter κ ι)}, s.letters.Perm (l :: rest) → l.Routed N :=
    fun hp => h.routed _ (hp.mem_iff.mpr List.mem_cons_self)
  cases hst with
  | @request k msg hop hback =>
    let x : Letter κ ι :=
      { origin := { client := some k, number := s.started }
        place := .task (N.home k) (N.identity k), msg := msg }
    have hone : [x].length ≤ 1 := le_rfl
    have hr : x.Routed N := Or.inl ⟨⟨k,rfl,rfl,rfl⟩,hback⟩
    refine h.start hone ?_ ?_ s.worlds
    · intro y hy
      rw [List.mem_singleton.mp hy]
    · intro y hy
      rw [List.mem_singleton.mp hy]
      exact hr
  | @handle l rest server peerId env horder hp hplace =>
    have hs := sends_handleMsgTask env (S.ctx server) (s.worlds server) peerId l.msg
    obtain ⟨hone,ho⟩ := post_one hs l.origin server
    exact h.replace hp hone ho (routed_post (hmem hp) hplace hs) _
  | expire server clientId =>
    have hs := sends_removeOfflineClient (S.ctx server) (s.worlds server) clientId ""
    obtain ⟨hone,ho⟩ := post_one hs { client := (none : Option κ), number := s.started } server
    exact h.start hone (fun x hx => by rw [ho x hx]) (routed_expire hs) _
  | @deliver l rest k hp hplace =>
    have hl := hmem hp
    simp only [Letter.Routed, hplace] at hl
    refine h.move hp rfl ⟨hl.1,?_⟩
    rcases hl.2 with ⟨k',hk',-,hid⟩ | ⟨i,-,hid,-⟩
    · rw [hk', N.identity_injective hid]
    · exact absurd hid (N.apart k i)
  | @answer l rest i hp hplace =>
    have hl := hmem hp
    simp only [Letter.Routed, hplace] at hl
    refine h.move hp rfl ⟨hl.1,?_⟩
    rcases hl.2 with ⟨k,-,-,hid⟩ | ⟨j,-,hid,hr⟩
    · exact absurd hid (N.apart k i)
    · rw [N.socketId_injective hid]
      exact hr
  | @forward l rest i hp hplace =>
    have hl := hmem hp
    simp only [Letter.Routed, hplace] at hl
    obtain ⟨j,he,hfwd,hr⟩ := hl
    obtain rfl := Option.some.inj he
    exact h.move hp rfl (Or.inr ⟨⟨i,rfl,rfl,hr⟩,hfwd⟩)
  | @relay l rest i hp hplace =>
    refine h.replace hp ?_ ?_ (routed_relay (hmem hp) hplace) s.worlds
    · cases Cluster.relay l.msg <;> simp
    · intro x hx
      obtain ⟨answer,-,rfl⟩ := List.mem_map.mp hx
      rfl
  | @lose l rest hp =>
    have hone : ([] : List (Letter κ ι)).length ≤ 1 := Nat.zero_le 1
    exact h.replace hp hone (fun x hx => by cases hx) (fun x hx => by cases hx) s.worlds
  | world server w => exact ⟨h.routed,h.distinct,h.started⟩

def PostState.delivered (s : PostState κ ι) : List (κ × Letter κ ι) :=
  s.letters.filterMap (fun l => match l.place with
    | .client k => some (k,l)
    | _ => none)

theorem mem_delivered {s : PostState κ ι} {d : κ × Letter κ ι} :
    d ∈ s.delivered ↔ d.2 ∈ s.letters ∧ d.2.place = .client d.1 := by
  obtain ⟨k,l⟩ := d
  simp only [PostState.delivered, List.mem_filterMap]
  constructor
  · rintro ⟨l',hl',he⟩
    split at he
    · rename_i hplace
      obtain ⟨rfl,rfl⟩ := Prod.mk.inj (Option.some.inj he)
      exact ⟨hl',hplace⟩
    · cases he
  · rintro ⟨hl,hplace⟩
    exact ⟨l,hl,by simp only [hplace]⟩

theorem delivered_sublist (s : PostState κ ι) : (s.delivered.map Prod.snd).Sublist s.letters := by
  unfold PostState.delivered
  induction s.letters with
  | nil => exact List.Sublist.refl _
  | cons l ls ih =>
    rw [List.filterMap_cons]
    split
    · exact ih.cons l
    · rename_i d hd
      split at hd
      · obtain rfl := Option.some.inj hd
        exact ih.cons_cons l
      · cases hd

theorem inv_of_reachable [DecidableEq ι] {s : PostState κ ι} (h : (postLts S N).Reachable s) : s.Inv N := by
  obtain ⟨past,hrun⟩ := h
  apply hrun.invariant
  · rintro s rfl
    refine ⟨?_,List.nodup_nil,?_⟩
    · intro l hl
      cases hl
    · intro l hl
      cases hl
  · exact fun s a t hi hst => hi.of_step hst

/-- A reply that reaches a client answers a request of that client, no request is answered
twice, and what an expired heartbeat sets off reaches nobody. -/
theorem replies_routed [DecidableEq ι] {s : PostState κ ι} (h : (postLts S N).Reachable s) :
    (∀ d ∈ s.delivered, d.2.origin.client = some d.1 ∧ IsAnswer d.2.msg.operation) ∧
    (s.delivered.map (fun d => d.2.origin)).Nodup ∧
    ∀ l ∈ s.letters, l.origin.client = none → ∀ k, l.place ≠ .client k := by
  have hi := inv_of_reachable h
  have hclient : ∀ l ∈ s.letters, ∀ k, l.place = .client k →
      IsAnswer l.msg.operation ∧ l.origin.client = some k := by
    intro l hl k hplace
    have hr := hi.routed l hl
    simpa only [Letter.Routed, hplace] using hr
  refine ⟨?_,?_,?_⟩
  · intro d hd
    obtain ⟨hl,hplace⟩ := mem_delivered.mp hd
    exact (hclient d.2 hl d.1 hplace).symm
  · have hsub := (delivered_sublist s).map Letter.origin
    rw [List.map_map] at hsub
    exact hi.distinct.sublist hsub
  · intro l hl hno k hplace
    rw [(hclient l hl k hplace).2] at hno
    cases hno

end

def oneClient : Connections Unit Unit where
  home _ := some ()
  identity _ := "client"
  socketId _ := "67e55044-10b1-426f-9247-bb680e5fe0c8"
  identity_injective _ _ _ := rfl
  socketId_injective _ _ _ := rfl
  apart _ _ := by decide

/-- The client logs in and gets the reply of the master through its slave. -/
theorem replies_routed_login : ∃ s, (postLts pairSetup oneClient).Reachable s ∧
    s.delivered.map Prod.fst = [()] ∧ (s.delivered.map (fun d => d.2.origin)).Nodup := by
  let origin : Origin Unit := { client := some (), number := 0 }
  let user := User.randomWithoutVelocity Surroundings.plain.nextId Surroundings.plain.randPosition
  let m := (Message.addUser (pairSetup.ctx (some ())).selfNodeInfo.getKey user).setPeerId "client"
  have hr₀ : (postLts pairSetup oneClient).Reachable (PostState.start pairSetup) := ⟨[],Run.start rfl⟩
  have hr₁ := hr₀.next (a := ())
    (@PostStep.request _ _ _ pairSetup oneClient _ () (Message.login "client") (Or.inl rfl) rfl)
  have hslave : Forwards (World.init .slave) (handleMsgTask .plain (pairSetup.ctx (some ()))
      (World.init .slave) "client" (Message.login "client")) _ m :=
    forwards_login rfl (pairSetup.slaveCtx_alive ()) .plain (World.init .slave) "client" rfl rfl
  have h₂ : ∃ s, (postLts pairSetup oneClient).Reachable s ∧
      s.letters = [{ origin := origin, place := .toMaster (some ()), msg := m }] := by
    refine ⟨_,hr₁.next (a := ()) (PostStep.handle .plain enumerates_values (List.Perm.refl _) rfl),?_⟩
    show post (handleMsgTask .plain (pairSetup.ctx (some ())) (World.init .slave) "client"
      (Message.login "client")) origin (some ()) ++ [] = _
    unfold post
    rw [hslave.toClient, hslave.toMaster]
    rfl
  obtain ⟨s₂,hr₂,hl₂⟩ := h₂
  obtain ⟨s₃,hr₃,hl₃⟩ : ∃ s, (postLts pairSetup oneClient).Reachable s ∧ s.letters =
      [{ origin := origin, place := .task none (oneClient.socketId ()), msg := m }] :=
    ⟨_,hr₂.next (a := ()) (PostStep.forward (List.Perm.of_eq hl₂) rfl),rfl⟩
  have hmaster : Answers (handleMsgTask .plain (pairSetup.ctx none) (s₃.worlds none) (oneClient.socketId ()) m)
      (Outcome.ok ((s₃.worlds none).addUser user)) (oneClient.socketId ()) (some "client") :=
    answers_addUser rfl .plain (s₃.worlds none) (oneClient.socketId ()) rfl rfl
  obtain ⟨reply,hback,hclient⟩ := hmaster.toClient
  obtain ⟨s₄,hr₄,hl₄⟩ : ∃ s, (postLts pairSetup oneClient).Reachable s ∧ s.letters =
      [{ origin := origin, place := .toClient none (oneClient.socketId ()), msg := reply }] := by
    refine ⟨_,hr₃.next (a := ()) (PostStep.handle .plain enumerates_values (List.Perm.of_eq hl₃) rfl),?_⟩
    show post (handleMsgTask .plain (pairSetup.ctx none) (s₃.worlds none) (oneClient.socketId ()) m) origin
      none ++ [] = _
    unfold post
    rw [hclient, hmaster.toMaster]
    rfl
  obtain ⟨s₅,hr₅,hl₅⟩ : ∃ s, (postLts pairSetup oneClient).Reachable s ∧ s.letters =
      [{ origin := origin, place := .fromMaster (), msg := reply }] :=
    ⟨_,hr₄.next (a := ()) (PostStep.answer (List.Perm.of_eq hl₄) rfl),rfl⟩
  obtain ⟨s₆,hr₆,hl₆⟩ : ∃ s, (postLts pairSetup oneClient).Reachable s ∧ s.letters =
      [{ origin := origin, place := .toClient (some ()) "client", msg := reply }] := by
    refine ⟨_,hr₅.next (a := ()) (PostStep.relay (List.Perm.of_eq hl₅) rfl),?_⟩
    simp [relay, hback]
  obtain ⟨s₇,hr₇,hl₇⟩ : ∃ s, (postLts pairSetup oneClient).Reachable s ∧ s.letters =
      [{ origin := origin, place := .client (), msg := reply }] :=
    ⟨_,hr₆.next (a := ()) (@PostStep.deliver _ _ _ pairSetup oneClient _ _ _ () (List.Perm.of_eq hl₆) rfl),rfl⟩
  refine ⟨s₇,hr₇,?_,(replies_routed hr₇).2.1⟩
  simp [PostState.delivered, hl₇]

end GameServer.Cluster
