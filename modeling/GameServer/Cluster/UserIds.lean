import Mathlib.Data.Fintype.EquivFin
import GameServer.Cluster.SessionAgreement
import GameServer.Library.Streams
import GameServer.Server.SingleNode

/-! # User ids from the generators of several nodes

Every node draws the ids of its logins from its own generator and tells the master
only the finished user. Whether two of them can collide depends on the worker ids
the nodes give their generators.
-/
namespace GameServer.Cluster
open Common CommonServer Library Server

structure IdGeneratorOptions where
  workerId : ℕ
  workerIdBitLen : ℕ
deriving DecidableEq

/-- The options `run` passes to `IdInstance::init`, on whatever node -/
def IdGeneratorOptions.run : IdGeneratorOptions where
  workerId := 1
  workerIdBitLen := 6

/-- The ids the generators of the servers return, call by call. The generator is a library;
its two promises are the fields. -/
structure IdInstances (ι : Type) (options : ServerId ι → IdGeneratorOptions) where
  nextId : ServerId ι → ℕ → UserId
  own : ∀ i, Function.Injective (nextId i)
  others : ∀ i j, (options i).workerId ≠ (options j).workerId → ∀ m n, nextId i m ≠ nextId j n

/-- The generators of servers that were all started by `run`. -/
abbrev RunInstances (ι : Type) := IdInstances ι (fun _ => IdGeneratorOptions.run)

/-- The worlds, the messages sent to the master, and the servers that drew an id, latest
first. -/
structure IdState (ι : Type) where
  worlds : ServerId ι → World
  sent : List Message
  drawers : List (ServerId ι)

inductive IdAct (ι : Type)
  | login (i : ServerId ι) (env : Surroundings) (peerId : PeerIdentity) (msg : Message)
  | addUser (env : Surroundings) (peerId : PeerIdentity) (msg : Message)
  | other (i : ServerId ι) (overflow : Overflow) (op : WorldOp)

section
variable {ι : Type} [DecidableEq ι] (S : Setup ι) (G : RunInstances ι)

namespace IdState

def start : IdState ι where
  worlds i := World.init (S.conf i)
  sent := []
  drawers := []

def nextId (s : IdState ι) (i : ServerId ι) : UserId := Streams.next G.nextId s.drawers i

def ids (s : IdState ι) : List UserId := Streams.drawn G.nextId s.drawers

def login (s : IdState ι) (i : ServerId ι) (env : Surroundings) (peerId : PeerIdentity) (msg : Message) :
    Handled :=
  handleMsgTask { env with nextId := s.nextId G i } (S.ctx i) (s.worlds i) peerId msg

def next (s : IdState ι) : IdAct ι → IdState ι
  | .login i env peerId msg =>
    { worlds := Function.update s.worlds i (s.login S G i env peerId msg).world
      sent := s.sent ++ (s.login S G i env peerId msg).toMaster
      drawers := if (s.worlds i).Draws msg then i :: s.drawers else s.drawers }
  | .addUser env peerId msg =>
    { s with
      worlds := Function.update s.worlds none
        (handleMsgTask env (S.ctx none) (s.worlds none) peerId msg).world
      sent := s.sent.erase msg }
  | .other i overflow op =>
    { s with worlds := Function.update s.worlds i (op.run overflow (s.worlds i)).state }

/-- Users enter the world of a server by a login or by an `AddUser` that was sent. -/
def Admissible (s : IdState ι) : IdAct ι → Prop
  | .login _ _ _ msg => msg.operation = .Login
  | .addUser _ _ msg => msg ∈ s.sent
  | .other _ _ op => ∀ user, op ≠ .addUser user

/-- The step adds no user to the master's world under an id that is stored there. -/
def AddsNew (s : IdState ι) : IdAct ι → Prop
  | .login none _ _ msg => (s.worlds none).Draws msg → (s.worlds none).Fresh (s.nextId G none)
  | .addUser _ _ msg => ∀ user, msg.content = some (.user user) → (s.worlds none).Fresh user.id
  | _ => True

end IdState

/-- Logins on any server, `AddUser` messages handled in any order, and any other operation
in between. -/
def idLts : Lts (IdState ι) (IdAct ι) where
  init s := s = IdState.start S
  step s a t := s.Admissible a ∧ t = s.next S G a

end

/-! ## Distinct ids make every added user new -/

def sentIds (sent : List Message) : List UserId :=
  sent.filterMap (fun m => (m.content.bind Content.asUser).map User.id)

theorem sentIds_append (ms ms' : List Message) : sentIds (ms ++ ms') = sentIds ms ++ sentIds ms' :=
  List.filterMap_append

/-- What is stored at the master and what is on its way there was drawn, and nothing is both. -/
structure Known (w : World) (sent : List Message) (ids : List UserId) : Prop where
  settled : w.Settled
  adds : ∀ m ∈ sent, m.operation = .AddUser
  distinct : (sentIds sent).Nodup
  drawn : ∀ id ∈ sentIds sent, id ∈ ids
  apart : ∀ id ∈ sentIds sent, id ∉ w.userIds
  stored : ∀ id ∈ w.userIds, id ∈ ids

namespace Known
variable {w : World} {sent : List Message} {ids : List UserId}

theorem init (conf : GameServerConf) : Known (World.init conf) [] [] where
  settled := settled_init conf
  adds m hm := by cases hm
  distinct := List.nodup_nil
  drawn id hid := by cases hid
  apart id hid := by cases hid
  stored id hid := by rw [userIds_init] at hid; cases hid

theorem of_subset (h : Known w sent ids) {w' : World} (hset : w'.Settled)
    (hsub : ∀ id ∈ w'.userIds, id ∈ w.userIds) : Known w' sent ids where
  settled := hset
  adds := h.adds
  distinct := h.distinct
  drawn := h.drawn
  apart id hid hin := h.apart id hid (hsub id hin)
  stored id hid := h.stored id (hsub id hid)

theorem erase (h : Known w sent ids) (msg : Message) : Known w (sent.erase msg) ids := by
  have hin : ∀ id ∈ sentIds (sent.erase msg), id ∈ sentIds sent := by
    intro id hid
    obtain ⟨m,hm,he⟩ := List.mem_filterMap.mp hid
    exact List.mem_filterMap.mpr ⟨m,List.mem_of_mem_erase hm,he⟩
  refine ⟨h.settled,fun m hm => h.adds m (List.mem_of_mem_erase hm),?_,
    fun id hid => h.drawn id (hin id hid),fun id hid => h.apart id (hin id hid),h.stored⟩
  exact h.distinct.sublist (List.Sublist.filterMap _ List.erase_sublist)

/-- The user of a sent message is new at the master and leaves the messages for good. -/
theorem of_sent (h : Known w sent ids) {msg : Message} (hmem : msg ∈ sent) {user : User}
    (hc : msg.content.bind Content.asUser = some user) :
    user.id ∉ w.userIds ∧ user.id ∈ ids ∧ user.id ∉ sentIds (sent.erase msg) := by
  have hperm : (sentIds sent).Perm (user.id :: sentIds (sent.erase msg)) := by
    have hp := (List.perm_cons_erase hmem).filterMap (fun m => (m.content.bind Content.asUser).map User.id)
    rwa [List.filterMap_cons_some (by rw [hc]; rfl)] at hp
  have hmine : user.id ∈ sentIds sent := hperm.mem_iff.mpr List.mem_cons_self
  exact ⟨h.apart user.id hmine,h.drawn user.id hmine,
    (List.nodup_cons.mp (hperm.nodup_iff.mp h.distinct)).1⟩

theorem addUser (h : Known w sent ids) {user : User} (hnew : user.id ∉ w.userIds)
    (hid : user.id ∈ ids) (hgone : user.id ∉ sentIds sent) : Known (w.addUser user) sent ids := by
  refine ⟨settled_addUser h.settled (fresh_of_not_stored h.settled hnew),h.adds,h.distinct,h.drawn,?_,?_⟩
  · intro id hs hin
    rcases (userIds_addUser w user).mp hin with hold | rfl
    · exact h.apart id hs hold
    · exact hgone hs
  · intro id hin
    rcases (userIds_addUser w user).mp hin with hold | rfl
    · exact h.stored id hold
    · exact hid

theorem draw (h : Known w sent ids) (id : UserId) : Known w sent (id :: ids) where
  settled := h.settled
  adds := h.adds
  distinct := h.distinct
  drawn i hi := List.mem_cons_of_mem id (h.drawn i hi)
  apart := h.apart
  stored i hi := List.mem_cons_of_mem id (h.stored i hi)

theorem send (h : Known w sent ids) {msg : Message} (hop : msg.operation = .AddUser) {user : User}
    (hc : msg.content = some (.user user)) (hid : user.id ∈ ids) (hnew : user.id ∉ w.userIds)
    (hgone : user.id ∉ sentIds sent) : Known w (sent ++ [msg]) ids := by
  have hmsg : sentIds [msg] = [user.id] := by simp [sentIds, hc, Content.asUser]
  have hsent : sentIds (sent ++ [msg]) = sentIds sent ++ [user.id] := by rw [sentIds_append, hmsg]
  refine ⟨h.settled,?_,?_,?_,?_,h.stored⟩
  · intro m hm
    rcases List.mem_append.mp hm with hm | hm
    · exact h.adds m hm
    · exact List.mem_singleton.mp hm ▸ hop
  · rw [hsent]
    exact List.nodup_append'.mpr ⟨h.distinct,List.nodup_singleton _,
      List.disjoint_singleton.mpr hgone⟩
  · intro id hi
    rw [hsent] at hi
    rcases List.mem_append.mp hi with hi | hi
    · exact h.drawn id hi
    · exact List.mem_singleton.mp hi ▸ hid
  · intro id hi
    rw [hsent] at hi
    rcases List.mem_append.mp hi with hi | hi
    · exact h.apart id hi
    · exact List.mem_singleton.mp hi ▸ hnew

end Known

section
variable {ι : Type} [DecidableEq ι] {S : Setup ι} {G : RunInstances ι} {s : IdState ι}

def IdState.Inv (G : RunInstances ι) (s : IdState ι) : Prop := Known (s.worlds none) s.sent (s.ids G)

theorem inv_addUser (h : s.Inv G) (env : Surroundings) (peerId : PeerIdentity) {msg : Message}
    (hmem : msg ∈ s.sent) :
    (s.next S G (.addUser env peerId msg)).Inv G ∧ s.AddsNew G (.addUser env peerId msg) := by
  have hm : (S.ctx none).nodeType = .Master := S.masterType
  have hw := handleMsgTask_world hm env (s.worlds none) peerId msg
  simp only [masterOps, h.adds msg hmem] at hw
  unfold IdState.Inv IdState.next
  simp only [Function.update_self, hw]
  cases hc : msg.content.bind Content.asUser with
  | none =>
    refine ⟨h.erase msg,?_⟩
    intro user he
    rw [he] at hc
    cases hc
  | some user =>
    obtain ⟨hnew,hid,hgone⟩ := h.of_sent hmem hc
    refine ⟨(h.erase msg).addUser hnew hid hgone,?_⟩
    intro user' he
    rw [he] at hc
    obtain rfl : user' = user := Option.some.inj hc
    exact fresh_of_not_stored h.settled hnew

theorem inv_other (h : s.Inv G) (i : ServerId ι) (overflow : Overflow) {op : WorldOp}
    (hop : ∀ user, op ≠ .addUser user) : (s.next S G (.other i overflow op)).Inv G := by
  cases i with
  | some i =>
    have hm : Function.update s.worlds (some i) (op.run overflow (s.worlds (some i))).state none =
        s.worlds none := Function.update_of_ne (by simp) _ _
    simp only [IdState.Inv, IdState.next, hm]
    exact h
  | none =>
    simp only [IdState.Inv, IdState.next, Function.update_self]
    exact h.of_subset (settled_run h.settled (addsFresh_of_ne hop _)) (ids_run_subset h.settled hop).2

theorem login_again (i : ServerId ι) (env : Surroundings) (peerId : PeerIdentity) {msg : Message}
    (hop : msg.operation = .Login) (hno : ¬ (s.worlds i).Draws msg) :
    (s.login S G i env peerId msg).world = s.worlds i ∧ (s.login S G i env peerId msg).toMaster = [] := by
  have hsome : ((s.worlds i).clientMap.lookup msg.clientId).isSome := by
    cases hl : (s.worlds i).clientMap.lookup msg.clientId with
    | none => exact absurd ⟨hop,hl⟩ hno
    | some id => rfl
  simp only [IdState.login, handleMsgTask, hop, handleLogin, if_pos hsome]
  exact ⟨rfl,rfl⟩

theorem login_master (env : Surroundings) (peerId : PeerIdentity) {msg : Message}
    (hd : (s.worlds none).Draws msg) :
    (s.login S G none env peerId msg).world =
      { s.worlds none with clientMap := (s.worlds none).clientMap.insert msg.clientId (s.nextId G none) }.addUser
        (User.randomWithoutVelocity (s.nextId G none) env.randPosition) ∧
    (s.login S G none env peerId msg).toMaster = [] := by
  have hm : (S.ctx none).nodeType = .Master := S.masterType
  simp only [IdState.login, handleMsgTask, hd.1, handleLogin, hd.2, hm, Option.isSome_none,
    Bool.false_eq_true, if_false, reduceCtorEq, Handled.reply]
  split <;> exact ⟨rfl,rfl⟩

theorem login_slave (i : ι) (env : Surroundings) (peerId : PeerIdentity) {msg : Message}
    (hd : (s.worlds (some i)).Draws msg) :
    (s.login S G (some i) env peerId msg).toMaster =
      [(Message.addUser (S.ctx (some i)).selfNodeInfo.getKey
        (User.randomWithoutVelocity (s.nextId G (some i)) env.randPosition)).setPeerId peerId] := by
  have hs : (S.ctx (some i)).nodeType = .Slave := S.slaveType i
  have ha : (S.ctx (some i)).toMasterSender.alive = true := S.slaveCtx_alive i
  simp only [IdState.login, handleMsgTask, hd.1, handleLogin, hd.2, hs, ha, Option.isSome_none,
    Bool.false_eq_true, if_false, if_true]

theorem inv_login (h : s.Inv G) (i : ServerId ι) (env : Surroundings) (peerId : PeerIdentity)
    {msg : Message} (hop : msg.operation = .Login)
    (hnew : (s.worlds i).Draws msg → s.nextId G i ∉ s.ids G) :
    (s.next S G (.login i env peerId msg)).Inv G ∧ s.AddsNew G (.login i env peerId msg) := by
  by_cases hd : (s.worlds i).Draws msg
  · have hids : Streams.drawn G.nextId (i :: s.drawers) = s.nextId G i :: s.ids G := rfl
    have hout : s.nextId G i ∉ (s.worlds none).userIds := fun hin => hnew hd (h.stored _ hin)
    have hgone : s.nextId G i ∉ sentIds s.sent := fun hin => hnew hd (h.drawn _ hin)
    cases i with
    | none =>
      obtain ⟨hw,hs⟩ := login_master (S := S) (G := G) env peerId hd
      have hset := settled_clientMap h.settled
        ((s.worlds none).clientMap.insert msg.clientId (s.nextId G none))
      simp only [IdState.Inv, IdState.next, IdState.ids, if_pos hd, Function.update_self, hw, hs,
        List.append_nil, hids]
      have hk := (h.draw (s.nextId G none)).of_subset hset (fun _ hi => hi)
      exact ⟨hk.addUser hout List.mem_cons_self hgone,fun _ => fresh_of_not_stored h.settled hout⟩
    | some i =>
      have hs := login_slave (S := S) (G := G) i env peerId hd
      have hm : Function.update s.worlds (some i) (s.login S G (some i) env peerId msg).world none =
          s.worlds none := Function.update_of_ne (by simp) _ _
      simp only [IdState.Inv, IdState.next, IdState.ids, if_pos hd, hm, hs, hids]
      exact ⟨(h.draw _).send rfl rfl List.mem_cons_self hout hgone,trivial⟩
  · obtain ⟨hw,hs⟩ := login_again (S := S) (G := G) i env peerId hop hd
    simp only [IdState.Inv, IdState.next, IdState.ids, if_neg hd, hw, hs, List.append_nil,
      Function.update_eq_self]
    refine ⟨h,?_⟩
    cases i with
    | none => exact fun hd' => absurd hd' hd
    | some i => trivial

/-- While the ids are distinct, a step adds new users only. -/
theorem inv_step {a : IdAct ι} (h : s.Inv G) (ha : s.Admissible a) (hd : (s.next S G a).ids G |>.Nodup) :
    (s.next S G a).Inv G ∧ s.AddsNew G a := by
  cases a with
  | login i env peerId msg =>
    refine inv_login h i env peerId ha ?_
    intro hdraw
    simp only [IdState.next, IdState.ids, if_pos hdraw] at hd
    exact (List.nodup_cons.mp hd).1
  | addUser env peerId msg => exact inv_addUser h env peerId ha
  | other i overflow op => exact ⟨inv_other h i overflow ha,trivial⟩

theorem ids_sublist_next (a : IdAct ι) : (s.ids G).Sublist ((s.next S G a).ids G) := by
  cases a with
  | login i env peerId msg =>
    simp only [IdState.next, IdState.ids]
    split
    · exact List.sublist_cons_self _ _
    · exact List.Sublist.refl _
  | addUser env peerId msg => exact List.Sublist.refl _
  | other i overflow op => exact List.Sublist.refl _

/-- A run that has drawn distinct ids has added new users only. -/
theorem adds_new_of_run {past : List (IdState ι × IdAct ι)} (h : Run (idLts S G) past s)
    (hd : (s.ids G).Nodup) : s.Inv G ∧ ∀ p ∈ past, p.1.AddsNew G p.2 := by
  induction h with
  | start hs =>
    obtain rfl := hs
    exact ⟨Known.init S.masterConf,fun p hp => by cases hp⟩
  | next hr hst ih =>
    obtain ⟨ha,rfl⟩ := hst
    obtain ⟨hi,hp⟩ := ih (hd.sublist (ids_sublist_next _))
    obtain ⟨hi',hnew⟩ := inv_step hi ha hd
    exact ⟨hi',List.forall_mem_cons.mpr ⟨hnew,hp⟩⟩

variable (S G)

/-- The servers may draw their ids in any order. -/
theorem exists_run_of_drawers (is : List (ServerId ι)) :
    ∃ past s, Run (idLts S G) past s ∧ s.drawers = is := by
  induction is with
  | nil => exact ⟨[],IdState.start S,Run.start rfl,rfl⟩
  | cons i is ih =>
    obtain ⟨past,s,hrun,hs⟩ := ih
    obtain ⟨c,hc⟩ := Infinite.exists_notMem_finset (s.worlds i).clientMap.keys.toFinset
    have hfree : (s.worlds i).clientMap.lookup c = none := by
      rw [AList.lookup_eq_none, AList.mem_keys]
      exact fun h => hc (List.mem_toFinset.mpr h)
    have hd : (s.worlds i).Draws (Message.login c) := ⟨rfl,hfree⟩
    have ha : s.Admissible (.login i .plain c (Message.login c)) := rfl
    refine ⟨_,_,hrun.next ⟨ha,rfl⟩,?_⟩
    simp only [IdState.next, if_pos hd, hs]

/-- Generators that promise no more than the library does may all count from one number on. -/
def countingInstances (g : ℕ → UserId) (hg : Function.Injective g) : RunInstances ι where
  nextId _ := g
  own _ := hg
  others _ _ hne := absurd rfl hne

/-- The ids of servers started by `run` are distinct, and the master adds new users only,
whatever the generators return, exactly if one server draws them all. -/
theorem ids_distinct_iff (is : List (ServerId ι)) :
    (∀ (G : RunInstances ι) past s, Run (idLts S G) past s → s.drawers = is →
      (s.ids G).Nodup ∧ ∀ p ∈ past, p.1.AddsNew G p.2) ↔ ∀ i ∈ is, ∀ j ∈ is, i = j := by
  constructor
  · intro h i hi j hj
    by_contra hij
    have hg : Function.Injective (fun n : ℕ => (n : UserId)) := Nat.cast_injective
    obtain ⟨past,s,hrun,hs⟩ := exists_run_of_drawers S (countingInstances _ hg) is
    have hd := (h _ past s hrun hs).1
    rw [IdState.ids, hs] at hd
    exact Streams.not_nodup_drawn _ hi hj hij hd
  · rintro hone G past s hrun rfl
    have hd : (s.ids G).Nodup :=
      Streams.nodup_drawn G.own (fun i hi j hj hij => absurd (hone i hi j hj) hij)
    exact ⟨hd,(adds_new_of_run hrun hd).2⟩

end

/-- Snowflake ids of worker 1 with 6 bits for the worker and 8 for the sequence, one call in
each millisecond from a given one on. -/
def snowflake (start n : ℕ) : UserId := (((start + n) * 2 ^ 6 + 1) * 2 ^ 8 + 5 : ℕ)

theorem snowflake_injective (start : ℕ) : Function.Injective (snowflake start) := by
  intro m n h
  have h' := Nat.cast_injective h
  omega

def snowflakes : RunInstances Unit := countingInstances (snowflake 0) (snowflake_injective 0)

/-- One client logs in at the master and another one at the slave in the same millisecond:
the `AddUser` of the slave replaces the user of the first client. -/
theorem ids_collide : ∃ past s, Run (idLts pairSetup snowflakes) past s ∧ ¬ (s.ids snowflakes).Nodup ∧
    ∃ p ∈ past, ¬ p.1.AddsNew snowflakes p.2 := by
  let s₀ : IdState Unit := IdState.start pairSetup
  let a₁ : IdAct Unit := .login none .plain "" (Message.login "first")
  let s₁ := s₀.next pairSetup snowflakes a₁
  let a₂ : IdAct Unit := .login (some ()) .plain "" (Message.login "second")
  let s₂ := s₁.next pairSetup snowflakes a₂
  let user := User.randomWithoutVelocity (snowflake 0 0) Surroundings.plain.randPosition
  let m := (Message.addUser (pairSetup.ctx (some ())).selfNodeInfo.getKey user).setPeerId ""
  have hd₁ : (s₀.worlds none).Draws (Message.login "first") := ⟨rfl,rfl⟩
  have hd₂ : (s₁.worlds (some ())).Draws (Message.login "second") := ⟨rfl,rfl⟩
  obtain ⟨hw₁,hs₁⟩ := login_master (S := pairSetup) (G := snowflakes) .plain "" hd₁
  have hs₂ := login_slave (S := pairSetup) (G := snowflakes) () .plain "" hd₂
  have hsent : s₂.sent = [m] := by
    have h₁ : s₁.sent = [] := hs₁
    show s₁.sent ++ _ = [m]
    rw [hs₂, h₁]
    rfl
  have hstored : (s₂.worlds none).users.lookup (snowflake 0 0) = some user := by
    have h₁ : s₁.worlds none = _ := hw₁
    have h₂ : s₂.worlds none = s₁.worlds none := rfl
    rw [h₂, h₁]
    exact AList.lookup_insert _
  have h₁ : s₀.Admissible a₁ := rfl
  have h₂ : s₁.Admissible a₂ := rfl
  have h₃ : s₂.Admissible (.addUser .plain "" m) := by
    show m ∈ s₂.sent
    rw [hsent]
    exact List.mem_singleton_self m
  have hrun : Run (idLts pairSetup snowflakes) [] s₀ := Run.start rfl
  refine ⟨_,_,((hrun.next ⟨h₁,rfl⟩).next ⟨h₂,rfl⟩).next ⟨h₃,rfl⟩,?_,⟨_,List.mem_cons_self,?_⟩⟩
  · have hm : (none : ServerId Unit) ∈ [some (),none] := by simp
    have hs : some () ∈ ([some (),none] : List (ServerId Unit)) := by simp
    exact Streams.not_nodup_drawn (snowflake 0) hm hs (by simp)
  · intro hnew
    have hfree := (hnew user rfl).1
    have hid : user.id = snowflake 0 0 := rfl
    rw [hid, hstored] at hfree
    cases hfree

end GameServer.Cluster
