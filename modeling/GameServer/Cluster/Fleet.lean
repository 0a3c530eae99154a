import GameServer.Library.Pool
import GameServer.Registry.Interleaving
import GameServer.Server.MainHandle

/-! # Who acts as master

The registry, any number of server processes, and the messages under way between them,
which arrive in any order and as late as they like. The registry elects a new master once
it has not heard from the recorded one for five seconds, and nothing tells the old one.
-/
namespace GameServer.Cluster
open Common Library Server Registry

/-! ## A server and the registry center -/

/-- What the task for a message from the registry leaves behind; `exits` ends the process. -/
structure RespHandled where
  context : ServerContext
  toRegistryCenter : List Message
  exits : Bool

def handleRespFromRegistryCenterTask (ctx : ServerContext) (msg : Message) : RespHandled :=
  match msg.operation with
  | .RegisterResp =>
    match msg.content.bind Content.asRegisterResp with
    | none => { context := ctx, toRegistryCenter := [], exits := false } -- the task panics
    | some registerResp => { context := ctx, toRegistryCenter := [], exits := !registerResp.isSuccess }
  | .ConvertToMaster =>
    let ctx := convertSelfToMaster ctx
    { context := ctx
      toRegistryCenter :=
        if ctx.toRegistryCenterSender.alive then [Message.convertToMasterResp ctx.selfNodeInfo] else []
      exits := false }
  -- `ChangeMaster` is only logged
  | _ => { context := ctx, toRegistryCenter := [], exits := false }

/-- The message by which the registry makes a node master: a registration as master that
succeeded, or the command to convert. -/
def MakesMaster (conf : GameServerConf) (msg : Message) : Prop :=
  msg.operation = .RegisterResp ∧ conf.node.nodeType = .Master ∧
    (msg.content.bind Content.asRegisterResp).any RegisterResp.isSuccess = true ∨
  msg.operation = .ConvertToMaster

instance (conf : GameServerConf) (msg : Message) : Decidable (MakesMaster conf msg) :=
  inferInstanceAs (Decidable (_ ∨ _))

inductive Life
  | unborn
  | running
  | stopped
deriving DecidableEq

theorem Life.ne_unborn {l : Life} (h : l = .running) : l ≠ .unborn := by
  rw [h]
  decide

/-- A server process; `madeMaster` records that it was made master by the registry. -/
structure Process where
  life : Life
  context : ServerContext
  madeMaster : Bool

namespace Process

def IsMaster (p : Process) : Prop :=
  p.life = .running ∧ p.context.nodeType = .Master ∧ p.madeMaster = true

def handle (conf : GameServerConf) (p : Process) (msg : Message) : Process :=
  let h := handleRespFromRegistryCenterTask p.context msg
  { life := if h.exits then .stopped else p.life
    context := h.context
    madeMaster := p.madeMaster || decide (MakesMaster conf msg) }

theorem handle_life {conf : GameServerConf} {p : Process} (h : p.life ≠ .unborn) (msg : Message) :
    (p.handle conf msg).life ≠ .unborn := by
  unfold handle
  dsimp only
  split
  · simp
  · exact h

theorem handle_madeMaster {conf : GameServerConf} {p : Process} {msg : Message} :
    (p.handle conf msg).madeMaster = true ↔ p.madeMaster = true ∨ MakesMaster conf msg := by
  simp [handle]

end Process

/-- The processes that may be started, each with the identity of its socket. -/
structure Fleet (ι : Type) where
  conf : ι → GameServerConf
  peerId : ι → PeerIdentity
  peerId_injective : Function.Injective peerId

structure FleetState (ι : Type) where
  registry : Interleaved
  processes : ι → Process
  toRegistry : List (PeerIdentity × Message)
  toServers : List (PeerIdentity × Message)

inductive FleetAct (ι : Type)
  | start (i : ι)
  | stop (i : ι)
  | report (i : ι) (stateInfo : StateInfo)
  | receive (k : ℕ) (now : ℤ)
  | run (k : ℕ) (now : ℤ)
  | pass (clock : String → ℤ)
  | deliver (i : ι) (k : ℕ)

/-- The registry spawns a task; only one for `Register` releases the lock in between. -/
def receive (r : Interleaved) (now : ℤ) (peerId : PeerIdentity) (msg : Message) : Interleaved :=
  match msg.operation with
  | .Register => { r with tasks := r.tasks ++ [{ msg := msg, peerId := peerId, pc := .checkRegistered }] }
  | _ => { r with center := (Registry.handleMsgTask now msg peerId r.center).state }

namespace FleetState
variable {ι : Type} [DecidableEq ι] (F : Fleet ι)

def start : FleetState ι where
  registry := Interleaved.start
  processes i := { life := .unborn, context := ServerContext.newByConfig (F.conf i), madeMaster := false }
  toRegistry := []
  toServers := []

def withRegistry (s : FleetState ι) (r : Interleaved) : FleetState ι :=
  { s with
    registry := r
    toServers := s.toServers ++ r.center.sent.drop s.registry.center.sent.length }

def handle (s : FleetState ι) (i : ι) (msg : Message) : FleetState ι :=
  { s with
    processes := Function.update s.processes i ((s.processes i).handle (F.conf i) msg)
    toRegistry := s.toRegistry ++
      (handleRespFromRegistryCenterTask (s.processes i).context msg).toRegistryCenter.map
        (fun m => (F.peerId i,m)) }

def next (s : FleetState ι) : FleetAct ι → FleetState ι
  | .start i =>
    { s with
      processes := Function.update s.processes i
        { life := .running, context := ServerContext.run (F.conf i), madeMaster := false }
      toRegistry :=
        if (F.conf i).app.mode = .Cluster then
          s.toRegistry ++ [(F.peerId i,Message.register (F.conf i).node (F.conf i).node.nodeType)]
        else s.toRegistry }
  | .stop i =>
    { s with processes := Function.update s.processes i { s.processes i with life := .stopped } }
  | .report i stateInfo =>
    { s with toRegistry :=
        s.toRegistry ++ [(F.peerId i,Message.stateReport (F.conf i).node.getKey stateInfo)] }
  | .receive k now =>
    match s.toRegistry[k]? with
    | none => s
    | some (peerId,msg) =>
      FleetState.withRegistry { s with toRegistry := s.toRegistry.eraseIdx k }
        (receive s.registry now peerId msg)
  | .run k now => s.withRegistry (s.registry.run k now)
  | .pass clock => s.withRegistry (s.registry.next (.pass clock))
  | .deliver i k =>
    match s.toServers[k]? with
    | none => s
    | some (_,msg) =>
      let s := { s with toServers := s.toServers.eraseIdx k }
      if (s.processes i).life = .running then s.handle F i msg else s

/-- A process is started once, a stopped one sends nothing, and a message goes where its
identity says. -/
def Admissible (s : FleetState ι) : FleetAct ι → Prop
  | .start i => (s.processes i).life = .unborn
  | .stop i => (s.processes i).life = .running
  | .report i _ => (s.processes i).life = .running ∧ (F.conf i).app.mode = .Cluster
  | .receive _ _ => True
  | .run _ _ => True
  | .pass _ => s.registry.monitoring = true
  | .deliver i k => ∀ x ∈ s.toServers[k]?, x.1 = F.peerId i

/-- At most one running process acts as a master that the registry made. -/
def OneMaster (s : FleetState ι) : Prop :=
  ∀ i j, (s.processes i).IsMaster → (s.processes j).IsMaster → i = j

end FleetState

inductive FleetStep {ι : Type} [DecidableEq ι] (F : Fleet ι) :
    FleetState ι → Option (FleetAct ι) → FleetState ι → Prop
  | act {s : FleetState ι} {a : FleetAct ι} : s.Admissible F a → FleetStep F s (some a) (s.next F a)
  | reorder {s : FleetState ι} {ctx : AppContext} : s.registry.center.context.Same ctx →
      FleetStep F s none
        { s with registry := { s.registry with center := { s.registry.center with context := ctx } } }

def fleetLts {ι : Type} [DecidableEq ι] (F : Fleet ι) : Lts (FleetState ι) (Option (FleetAct ι)) where
  init s := s = FleetState.start F
  step := FleetStep F

/-! ## What the registry sends -/

/-- The node that an election would command, by the identity of its socket. -/
def electee (ctx : AppContext) (clock : String → ℤ) : Option PeerIdentity :=
  match getMinLoadNode (ctx.nodeState.eraseAll (ctx.delList clock))
      (ctx.nodeList.eraseAll (ctx.delList clock)) with
  | .ok (some newMasterNode) => ctx.nodeIdPeerIdMap.lookup newMasterNode.getKey
  | _ => none

/-- A section sends nothing, a refusal, or the success of an inserted node. -/
theorem locked_sent (now : ℤ) (c : Center) (t : RegisterTask) :
    ∃ new, (t.locked now c).1.sent = c.sent ++ new ∧
      (new = [] ∨ (∃ reason, new = [(t.peerId,Message.registerResp (RegisterResp.fail reason))]) ∨
        (∃ nodeInfo, t.pc = .insertNode nodeInfo) ∧
          new = [(t.peerId,Message.registerResp RegisterResp.success)]) := by
  have hquiet : ∃ new, c.sent = c.sent ++ new ∧
      (new = [] ∨ (∃ reason, new = [(t.peerId,Message.registerResp (RegisterResp.fail reason))]) ∨
        (∃ nodeInfo, t.pc = .insertNode nodeInfo) ∧
          new = [(t.peerId,Message.registerResp RegisterResp.success)]) :=
    ⟨[],(List.append_nil _).symm,Or.inl rfl⟩
  cases hp : t.pc with
  | checkRegistered =>
    simp only [RegisterTask.locked, hp]
    split
    · exact ⟨_,rfl,Or.inr (Or.inl ⟨_,rfl⟩)⟩
    · rw [hp] at hquiet
      split
      · exact hquiet
      · split
        · exact hquiet
        · exact hquiet
  | checkMaster nodeInfo =>
    simp only [RegisterTask.locked, hp]
    rw [hp] at hquiet
    split
    · split
      · exact ⟨_,rfl,Or.inr (Or.inl ⟨_,rfl⟩)⟩
      · exact hquiet
    · split
      · exact ⟨_,rfl,Or.inr (Or.inl ⟨_,rfl⟩)⟩
      · exact hquiet
  | writeMaster nodeInfo =>
    simp only [RegisterTask.locked, hp]
    rw [hp] at hquiet
    exact hquiet
  | insertNode nodeInfo =>
    simp only [RegisterTask.locked, hp]
    exact ⟨_,rfl,Or.inr (Or.inr ⟨⟨nodeInfo,rfl⟩,rfl⟩)⟩

theorem run_none {r : Interleaved} {k : ℕ} (hk : r.tasks[k]? = none) (now : ℤ) : r.run k now = r := by
  simp only [Interleaved.run, hk]

theorem run_center {r : Interleaved} {k : ℕ} {t : RegisterTask} (hk : r.tasks[k]? = some t) (now : ℤ) :
    (r.run k now).center = (t.locked now r.center).1 := by
  simp only [Interleaved.run, hk]

theorem mem_run_tasks {r : Interleaved} {k : ℕ} {t t' : RegisterTask} {now : ℤ} (hk : r.tasks[k]? = some t)
    (ht' : t' ∈ (r.run k now).tasks) : t' ∈ r.tasks ∨
      ∃ pc, (t.locked now r.center).2 = some pc ∧ t' = { t with pc := pc } := by
  simp only [Interleaved.run, hk] at ht'
  split at ht'
  · exact Or.inl (List.mem_of_mem_eraseIdx ht')
  · rename_i pc hpc
    exact (List.mem_or_eq_of_mem_set ht').imp_right (fun heq => ⟨pc,hpc,heq⟩)

/-- What an election sends: the command to the chosen node, then the news to the others. -/
inductive ElectionSends (c : Center) (sent : List (PeerIdentity × Message)) : Prop
  | nobody : sent = c.sent →
      (∀ n, getMinLoadNode c.context.nodeState c.context.nodeList = .ok (some n) →
        c.context.nodeIdPeerIdMap.lookup n.getKey = none) → ElectionSends c sent
  | commands (n : NodeInfo) (peerId : PeerIdentity) (rest : List (PeerIdentity × Message)) :
      getMinLoadNode c.context.nodeState c.context.nodeList = .ok (some n) →
      c.context.nodeIdPeerIdMap.lookup n.getKey = some peerId →
      sent = c.sent ++ (peerId,Message.convertToMaster n.getKey) :: rest →
      (∀ x ∈ rest, x.2.operation = .ChangeMaster ∧ ∃ k, c.context.nodeIdPeerIdMap.lookup k = some x.1) →
      ElectionSends c sent

theorem sent_forEach_sendChangeMaster (n : NodeInfo) (c : Center) (keys : List String) :
    ∃ rest, (Outcome.forEach (sendChangeMaster n) c keys).state.sent = c.sent ++ rest ∧
      ∀ x ∈ rest, x.2.operation = .ChangeMaster ∧ ∃ k, c.context.nodeIdPeerIdMap.lookup k = some x.1 := by
  have hall := Outcome.forEach_state (f := sendChangeMaster n)
    (I := fun d : Center => d.context = c.context ∧ ∃ rest, d.sent = c.sent ++ rest ∧
      ∀ x ∈ rest, x.2.operation = .ChangeMaster ∧ ∃ k, c.context.nodeIdPeerIdMap.lookup k = some x.1)
    (s := c) (l := keys) ⟨rfl,[],(List.append_nil _).symm,fun x hx => by cases hx⟩ ?_
  · exact hall.2
  · rintro d k - ⟨hctx,rest,hsent,hrest⟩
    refine ⟨(sendChangeMaster_state n d k).1.trans hctx,?_⟩
    unfold sendChangeMaster
    split
    · exact ⟨rest,hsent,hrest⟩
    · rename_i p hk
      refine ⟨rest ++ [(p,Message.changeMaster n.getKey n)],?_,?_⟩
      · simp [Center.send, hsent]
      · intro x hx
        rcases List.mem_append.mp hx with hx | hx
        · exact hrest x hx
        · rw [List.mem_singleton.mp hx]
          exact ⟨rfl,k,by rw [← hctx]; exact hk⟩

theorem electionSends (c : Center) : ElectionSends c (electMaster c).state.sent := by
  unfold electMaster
  cases hmin : getMinLoadNode c.context.nodeState c.context.nodeList with
  | error e =>
    apply ElectionSends.nobody rfl
    intro n hn
    rw [hmin] at hn
    cases hn
  | ok chosen =>
    cases chosen with
    | none =>
      apply ElectionSends.nobody rfl
      intro n hn
      rw [hmin] at hn
      cases hn
    | some n =>
      dsimp only
      cases hp : c.context.nodeIdPeerIdMap.lookup n.getKey with
      | none =>
        apply ElectionSends.nobody rfl
        intro n' hn'
        rw [hmin] at hn'
        cases hn'
        exact hp
      | some peerId =>
        obtain ⟨rest,hsent,hrest⟩ := sent_forEach_sendChangeMaster n
          (c.send peerId (Message.convertToMaster n.getKey)) (c.context.nodeList.erase n.getKey).keys
        refine ElectionSends.commands n peerId rest hmin hp ?_ hrest
        rw [hsent, Center.send, List.append_assoc]
        rfl

/-- A pass sends to nodes whose identity it knows, and a command only to the elected one. -/
theorem pass_sent (clock : String → ℤ) (c : Center) :
    ∃ new, (heartbeatMonitor clock c).state.sent = c.sent ++ new ∧
      (∀ x ∈ new, (∃ k, c.context.nodeIdPeerIdMap.lookup k = some x.1) ∧ x.2.operation ≠ .RegisterResp ∧
        (x.2.operation = .ConvertToMaster → c.context.needElectMaster clock = true ∧
          electee c.context clock = some x.1 ∧ c.context.nodeIdPeerIdMap.lookup x.2.clientId = some x.1)) ∧
      (c.context.needElectMaster clock = true → ∀ p, electee c.context clock = some p →
        ∃ x ∈ new, x.1 = p ∧ x.2.operation = .ConvertToMaster) := by
  unfold heartbeatMonitor
  cases hneed : c.context.needElectMaster clock with
  | false =>
    refine ⟨[],(List.append_nil _).symm,(fun x hx => by cases hx),?_⟩
    intro h
    cases h
  | true =>
    dsimp only
    rw [if_pos rfl]
    cases electionSends { c with context :=
        { c.context with
          nodeState := c.context.nodeState.eraseAll (c.context.delList clock)
          nodeList := c.context.nodeList.eraseAll (c.context.delList clock)
          masterNode := none } } with
    | nobody hsent hnone =>
      refine ⟨[],hsent.trans (List.append_nil _).symm,(fun x hx => by cases hx),?_⟩
      intro _ p hp
      unfold electee at hp
      split at hp
      · rename_i n hn
        rw [hnone n hn] at hp
        cases hp
      · cases hp
    | commands n peerId rest hmin hlookup hsent hrest =>
      have helectee : electee c.context clock = some peerId := by
        unfold electee
        rw [hmin]
        exact hlookup
      refine ⟨_,hsent,?_,?_⟩
      · intro x hx
        rcases List.mem_cons.mp hx with rfl | hx
        · exact ⟨⟨_,hlookup⟩,(by simp [Message.convertToMaster]),fun _ => ⟨rfl,helectee,hlookup⟩⟩
        · obtain ⟨hop,hk⟩ := hrest x hx
          rw [hop]
          exact ⟨hk,(by decide),fun h => by cases h⟩
      · intro _ p hp
        rw [helectee] at hp
        exact ⟨_,List.mem_cons_self,Option.some.inj hp,rfl⟩

/-- Handling anything but a registration sends nothing and leaves the identities alone. -/
theorem handleMsgTask_quiet (now : ℤ) {msg : Message} (peerId : PeerIdentity) (c : Center)
    (h : msg.operation ≠ .Register) : (Registry.handleMsgTask now msg peerId c).state.sent = c.sent ∧
      (Registry.handleMsgTask now msg peerId c).state.context.nodeIdPeerIdMap =
        c.context.nodeIdPeerIdMap := by
  unfold Registry.handleMsgTask
  split
  · contradiction
  · unfold handleReport
    split
    · exact ⟨rfl,rfl⟩
    · split <;> exact ⟨rfl,rfl⟩
  · unfold handleConvertToMasterResp
    split
    · exact ⟨rfl,rfl⟩
    · split <;> exact ⟨rfl,rfl⟩
  · exact ⟨rfl,rfl⟩

/-! ## The messages and the processes they are for -/

section
variable {ι : Type} (F : Fleet ι)

/-- The task handles the registration of the process, and knows what it read. -/
structure RegisterTask.OfProcess (t : RegisterTask) (i : ι) : Prop where
  peerId : t.peerId = F.peerId i
  msg : t.msg = Message.register (F.conf i).node (F.conf i).node.nodeType
  pc : match t.pc with
    | .checkRegistered => True
    | .checkMaster nodeInfo => nodeInfo = (F.conf i).node
    | .writeMaster nodeInfo => nodeInfo = (F.conf i).node ∧ nodeInfo.nodeType = .Master
    | .insertNode nodeInfo => nodeInfo = (F.conf i).node

variable {F}

theorem RegisterTask.OfProcess.locked {t : RegisterTask} {i : ι} (h : RegisterTask.OfProcess F t i)
    {now : ℤ} {c : Center} {pc : RegisterPc} (hpc : (t.locked now c).2 = some pc) :
    RegisterTask.OfProcess F { t with pc := pc } i := by
  refine ⟨h.peerId,h.msg,?_⟩
  have hold := h.pc
  cases hp : t.pc with
  | checkRegistered =>
    simp only [RegisterTask.locked, hp, h.msg, Message.register, Content.asNodeInfo] at hpc
    split at hpc
    · cases hpc
    · obtain rfl := Option.some.inj hpc
      rfl
  | checkMaster nodeInfo =>
    rw [hp] at hold
    simp only [RegisterTask.locked, hp] at hpc
    split at hpc
    · rename_i hmaster
      split at hpc
      · cases hpc
      · obtain rfl := Option.some.inj hpc
        exact ⟨hold,hmaster⟩
    · split at hpc
      · cases hpc
      · obtain rfl := Option.some.inj hpc
        exact hold
  | writeMaster nodeInfo =>
    rw [hp] at hold
    simp only [RegisterTask.locked, hp] at hpc
    obtain rfl := Option.some.inj hpc
    exact hold.1
  | insertNode nodeInfo =>
    simp only [RegisterTask.locked, hp] at hpc
    cases hpc

theorem locked_peers (now : ℤ) (c : Center) (t : RegisterTask) {k : String} {p : PeerIdentity}
    (h : (t.locked now c).1.context.nodeIdPeerIdMap.lookup k = some p) :
    c.context.nodeIdPeerIdMap.lookup k = some p ∨ p = t.peerId := by
  cases lockedEffect now c t with
  | checks hctx _ =>
    rw [hctx] at h
    exact Or.inl h
  | records nodeInfo hp hc _ =>
    rw [hc] at h
    exact Or.inl h
  | inserts nodeInfo hp hctx _ =>
    rw [hctx] at h
    simp only [Center.insertNode, AList.lookup_insert_eq] at h
    split at h
    · exact Or.inr (Option.some.inj h).symm
    · exact Or.inl h

namespace FleetState
variable (F)

def Born (s : FleetState ι) (p : PeerIdentity) : Prop :=
  ∃ i, p = F.peerId i ∧ (s.processes i).life ≠ .unborn

/-- What the registry does in one step, seen from the processes. -/
structure Moves (s : FleetState ι) (r : Interleaved) (new : List (PeerIdentity × Message)) : Prop where
  sent : r.center.sent = s.registry.center.sent ++ new
  born : ∀ x ∈ new, s.Born F x.1
  tasks : ∀ t ∈ r.tasks, ∃ i, RegisterTask.OfProcess F t i ∧ (s.processes i).life ≠ .unborn
  peers : ∀ k p, r.center.context.nodeIdPeerIdMap.lookup k = some p → s.Born F p

/-- Messages come from and go to processes that were started, and what makes a running
process master is under way until it does. -/
structure Sound (s : FleetState ι) : Prop where
  tasks : ∀ t ∈ s.registry.tasks, ∃ i, RegisterTask.OfProcess F t i ∧ (s.processes i).life ≠ .unborn
  peers : ∀ k p, s.registry.center.context.nodeIdPeerIdMap.lookup k = some p → s.Born F p
  sent : ∀ x ∈ s.registry.center.sent, s.Born F x.1
  toRegistry : ∀ x ∈ s.toRegistry, ∃ i, x.1 = F.peerId i ∧ (s.processes i).life ≠ .unborn ∧
    (x.2.operation = .Register → x.2 = Message.register (F.conf i).node (F.conf i).node.nodeType)
  toServers : ∀ x ∈ s.toServers, x ∈ s.registry.center.sent
  received : ∀ i, (s.processes i).life = .running → ∀ x ∈ s.registry.center.sent, x.1 = F.peerId i →
    MakesMaster (F.conf i) x.2 → (s.processes i).madeMaster = true ∨ x ∈ s.toServers
  made : ∀ i, (s.processes i).madeMaster = true →
    ∃ x ∈ s.registry.center.sent, x.1 = F.peerId i ∧ MakesMaster (F.conf i) x.2
  converted : ∀ i, (s.processes i).madeMaster = true → (s.processes i).context.nodeType = .Master
  configured : ∀ i, (s.processes i).life ≠ .unborn → (F.conf i).node.nodeType = .Master →
    (s.processes i).context.nodeType = .Master

variable {F}

theorem Born.life {s : FleetState ι} {i : ι} (h : s.Born F (F.peerId i)) :
    (s.processes i).life ≠ .unborn := by
  obtain ⟨j,hj,hborn⟩ := h
  rw [F.peerId_injective hj]
  exact hborn

theorem sound_start [DecidableEq ι] : (FleetState.start F).Sound F where
  tasks t ht := by cases ht
  peers k p hp := by cases hp
  sent x hx := by cases hx
  toRegistry x hx := by cases hx
  toServers x hx := by cases hx
  received i hi := by cases hi
  made i hi := by cases hi
  converted i hi := by cases hi
  configured i hi := absurd rfl hi

namespace Sound
variable {s : FleetState ι}

theorem withRegistry (h : s.Sound F) {r : Interleaved} {new : List (PeerIdentity × Message)}
    (hm : s.Moves F r new) : (s.withRegistry r).Sound F := by
  have hservers : (s.withRegistry r).toServers = s.toServers ++ new := by
    simp only [FleetState.withRegistry, hm.sent, List.drop_left]
  have hsent : ∀ x ∈ s.registry.center.sent, x ∈ r.center.sent := by
    intro x hx
    rw [hm.sent]
    exact List.mem_append_left _ hx
  refine ⟨hm.tasks,hm.peers,?_,h.toRegistry,?_,?_,?_,h.converted,h.configured⟩
  · intro x hx
    change x ∈ r.center.sent at hx
    rw [hm.sent] at hx
    exact (List.mem_append.mp hx).elim (h.sent x) (hm.born x)
  · intro x hx
    rw [hservers] at hx
    show x ∈ r.center.sent
    rcases List.mem_append.mp hx with hx | hx
    · exact hsent x (h.toServers x hx)
    · rw [hm.sent]
      exact List.mem_append_right _ hx
  · intro i hi x hx hpeer hmakes
    change x ∈ r.center.sent at hx
    rw [hm.sent] at hx
    rw [hservers]
    rcases List.mem_append.mp hx with hx | hx
    · exact (h.received i hi x hx hpeer hmakes).imp_right (List.mem_append_left new)
    · exact Or.inr (List.mem_append_right _ hx)
  · intro i hi
    obtain ⟨x,hx,hmakes⟩ := h.made i hi
    exact ⟨x,hsent x hx,hmakes⟩

theorem taken (h : s.Sound F) (k : ℕ) : Sound F { s with toRegistry := s.toRegistry.eraseIdx k } :=
  ⟨h.tasks,h.peers,h.sent,fun x hx => h.toRegistry x (List.mem_of_mem_eraseIdx hx),h.toServers,h.received,
    h.made,h.converted,h.configured⟩

theorem posted (h : s.Sound F) {i : ι} (hi : (s.processes i).life ≠ .unborn) (msgs : List Message)
    (hreg : ∀ m ∈ msgs, m.operation = .Register →
      m = Message.register (F.conf i).node (F.conf i).node.nodeType) :
    Sound F { s with toRegistry := s.toRegistry ++ msgs.map (fun m => (F.peerId i,m)) } := by
  refine ⟨h.tasks,h.peers,h.sent,?_,h.toServers,h.received,h.made,h.converted,h.configured⟩
  intro x hx
  rcases List.mem_append.mp hx with hx | hx
  · exact h.toRegistry x hx
  · obtain ⟨m,hm,rfl⟩ := List.mem_map.mp hx
    exact ⟨i,rfl,hi,hreg m hm⟩

/-! ### The steps of the registry -/

/-- A registration waits for its first section, and everything else is handled at once. -/
theorem moves_receive (h : s.Sound F) {x : PeerIdentity × Message} (hx : x ∈ s.toRegistry) (now : ℤ) :
    s.Moves F (receive s.registry now x.1 x.2) [] := by
  obtain ⟨i,hpeer,hborn,hreg⟩ := h.toRegistry x hx
  by_cases hop : x.2.operation = .Register
  · have hr : receive s.registry now x.1 x.2 = { s.registry with
        tasks := s.registry.tasks ++ [{ msg := x.2, peerId := x.1, pc := .checkRegistered }] } := by
      unfold receive
      rw [hop]
    rw [hr]
    refine ⟨(List.append_nil _).symm,(fun y hy => by cases hy),?_,h.peers⟩
    intro t ht
    rcases List.mem_append.mp ht with ht | ht
    · exact h.tasks t ht
    · rw [List.mem_singleton.mp ht]
      exact ⟨i,⟨hpeer,hreg hop,trivial⟩,hborn⟩
  · have hr : receive s.registry now x.1 x.2 = { s.registry with
        center := (Registry.handleMsgTask now x.2 x.1 s.registry.center).state } := by
      unfold receive
      split
      · contradiction
      · rfl
    obtain ⟨hsent,hmap⟩ := handleMsgTask_quiet now x.1 s.registry.center hop
    rw [hr]
    refine ⟨hsent.trans (List.append_nil _).symm,(fun y hy => by cases hy),h.tasks,?_⟩
    dsimp only
    rw [hmap]
    exact h.peers

theorem moves_run (h : s.Sound F) (k : ℕ) (now : ℤ) : ∃ new, s.Moves F (s.registry.run k now) new := by
  cases hk : s.registry.tasks[k]? with
  | none =>
    rw [run_none hk]
    exact ⟨[],(List.append_nil _).symm,(fun y hy => by cases hy),h.tasks,h.peers⟩
  | some t =>
    obtain ⟨i,hof,hborn⟩ := h.tasks t (List.mem_of_getElem? hk)
    have htborn : s.Born F t.peerId := ⟨i,hof.peerId,hborn⟩
    obtain ⟨new,hsent,hnew⟩ := locked_sent now s.registry.center t
    refine ⟨new,?_,?_,?_,?_⟩
    · rw [run_center hk]
      exact hsent
    · intro x hx
      rcases hnew with rfl | ⟨reason,rfl⟩ | ⟨-,rfl⟩
      · cases hx
      · rw [List.mem_singleton.mp hx]
        exact htborn
      · rw [List.mem_singleton.mp hx]
        exact htborn
    · intro t' ht'
      rcases mem_run_tasks hk ht' with hold | ⟨pc,hpc,rfl⟩
      · exact h.tasks t' hold
      · exact ⟨i,hof.locked hpc,hborn⟩
    · intro key p hp
      rw [run_center hk] at hp
      rcases locked_peers now s.registry.center t hp with hold | rfl
      · exact h.peers key p hold
      · exact htborn

theorem moves_pass (h : s.Sound F) (clock : String → ℤ) :
    ∃ new, s.Moves F (s.registry.next (.pass clock)) new := by
  obtain ⟨new,hsent,hnew,-⟩ := pass_sent clock s.registry.center
  refine ⟨new,hsent,?_,h.tasks,?_⟩
  · intro x hx
    obtain ⟨⟨k,hk⟩,-⟩ := hnew x hx
    exact h.peers k x.1 hk
  · intro k p hp
    simp only [Interleaved.next, heartbeatMonitor_context] at hp
    exact h.peers k p hp

theorem moves_reorder (h : s.Sound F) {ctx : AppContext} (hs : s.registry.center.context.Same ctx) :
    s.Moves F { s.registry with center := { s.registry.center with context := ctx } } [] := by
  refine ⟨(List.append_nil _).symm,(fun y hy => by cases hy),h.tasks,?_⟩
  intro k p hp
  exact h.peers k p ((hs.nodeIdPeerIdMap k).trans hp)

/-! ### The steps of the processes -/

variable [DecidableEq ι]

theorem changed (h : s.Sound F) {i : ι} {p : Process} (toServers : List (PeerIdentity × Message))
    (hborn : p.life ≠ .unborn) (hsub : ∀ x ∈ toServers, x ∈ s.toServers)
    (hothers : ∀ x ∈ s.toServers, x.1 ≠ F.peerId i → x ∈ toServers)
    (hreceived : p.life = .running → ∀ x ∈ s.registry.center.sent, x.1 = F.peerId i →
      MakesMaster (F.conf i) x.2 → p.madeMaster = true ∨ x ∈ toServers)
    (hmade : p.madeMaster = true →
      ∃ x ∈ s.registry.center.sent, x.1 = F.peerId i ∧ MakesMaster (F.conf i) x.2)
    (hconverted : p.madeMaster = true → p.context.nodeType = .Master)
    (hconfigured : (F.conf i).node.nodeType = .Master → p.context.nodeType = .Master) :
    Sound F { s with processes := Function.update s.processes i p, toServers := toServers } := by
  have hlife : ∀ j, (s.processes j).life ≠ .unborn → (Function.update s.processes i p j).life ≠ .unborn := by
    intro j hj
    by_cases hji : j = i
    · subst hji
      rw [Function.update_self]
      exact hborn
    · rw [Function.update_of_ne hji]
      exact hj
  have hkeep : ∀ q, s.Born F q → Born F { s with
      processes := Function.update s.processes i p, toServers := toServers } q :=
    fun q ⟨j,hq,hj⟩ => ⟨j,hq,hlife j hj⟩
  -- what is required of every process holds of the new one, and of the others as before
  have hall : ∀ {P : ι → Process → Prop}, P i p → (∀ j, P j (s.processes j)) →
      ∀ j, P j (Function.update s.processes i p j) := by
    intro P hnew hold j
    by_cases hji : j = i
    · subst hji
      rw [Function.update_self]
      exact hnew
    · rw [Function.update_of_ne hji]
      exact hold j
  refine ⟨?_,?_,?_,?_,?_,?_,?_,?_,?_⟩
  · intro t ht
    obtain ⟨j,hj,hb⟩ := h.tasks t ht
    exact ⟨j,hj,hlife j hb⟩
  · exact fun k q hq => hkeep q (h.peers k q hq)
  · exact fun x hx => hkeep x.1 (h.sent x hx)
  · intro x hx
    obtain ⟨j,hj,hb,hreg⟩ := h.toRegistry x hx
    exact ⟨j,hj,hlife j hb,hreg⟩
  · exact fun x hx => h.toServers x (hsub x hx)
  · intro j hj x hx hpeer hmakes
    by_cases hji : j = i
    · subst hji
      dsimp only at hj ⊢
      rw [Function.update_self] at hj ⊢
      exact hreceived hj x hx hpeer hmakes
    · dsimp only at hj ⊢
      rw [Function.update_of_ne hji] at hj ⊢
      refine (h.received j hj x hx hpeer hmakes).imp_right (fun hin => hothers x hin ?_)
      rw [hpeer]
      exact fun hp => hji (F.peerId_injective hp)
  · exact hall (P := fun j q => q.madeMaster = true →
      ∃ x ∈ s.registry.center.sent, x.1 = F.peerId j ∧ MakesMaster (F.conf j) x.2) hmade h.made
  · exact hall (P := fun _ q => q.madeMaster = true → q.context.nodeType = .Master) hconverted h.converted
  · exact hall (P := fun j q => q.life ≠ .unborn → (F.conf j).node.nodeType = .Master →
      q.context.nodeType = .Master) (fun _ => hconfigured) h.configured

theorem start (h : s.Sound F) {i : ι} (hi : (s.processes i).life = .unborn) :
    (s.next F (.start i)).Sound F := by
  have hstarted : Sound F
      { s with
        processes := Function.update s.processes i
          { life := .running, context := ServerContext.run (F.conf i), madeMaster := false } } := by
    apply h.changed s.toServers
    · intro hl
      cases hl
    · exact fun x hx => hx
    · exact fun x hx _ => hx
    · intro _ x hx hpeer _
      have hborn := h.sent x hx
      rw [hpeer] at hborn
      exact absurd hi hborn.life
    · intro hm
      cases hm
    · intro hm
      cases hm
    · exact fun hconf => hconf
  by_cases hmode : (F.conf i).app.mode = .Cluster
  · have hposted := hstarted.posted (i := i) (by simp)
      [Message.register (F.conf i).node (F.conf i).node.nodeType] (fun m hm _ => List.mem_singleton.mp hm)
    simp only [next, hmode, if_true]
    exact hposted
  · simp only [next, hmode, if_false]
    exact hstarted

theorem stop (h : s.Sound F) {i : ι} (hi : (s.processes i).life = .running) :
    (s.next F (.stop i)).Sound F := by
  have hborn : (s.processes i).life ≠ .unborn := Life.ne_unborn hi
  apply h.changed s.toServers
  · intro hl
    cases hl
  · exact fun x hx => hx
  · exact fun x hx _ => hx
  · intro hl
    cases hl
  · exact h.made i
  · exact h.converted i
  · exact h.configured i hborn

/-- A master stays one whatever the registry tells it. -/
theorem handleResp_master {ctx : ServerContext} (h : ctx.nodeType = .Master) (msg : Message) :
    (handleRespFromRegistryCenterTask ctx msg).context.nodeType = .Master := by
  unfold handleRespFromRegistryCenterTask
  split
  · split
    · exact h
    · exact h
  · rfl
  · exact h

theorem handleResp_makes {conf : GameServerConf} {ctx : ServerContext} {msg : Message}
    (hm : MakesMaster conf msg) (h : conf.node.nodeType = .Master → ctx.nodeType = .Master) :
    (handleRespFromRegistryCenterTask ctx msg).context.nodeType = .Master := by
  rcases hm with ⟨-,hconf,-⟩ | hop
  · exact handleResp_master (h hconf) msg
  · unfold handleRespFromRegistryCenterTask
    rw [hop]
    rfl

theorem handleResp_posts {ctx : ServerContext} {msg m : Message}
    (hm : m ∈ (handleRespFromRegistryCenterTask ctx msg).toRegistryCenter) : m.operation ≠ .Register := by
  unfold handleRespFromRegistryCenterTask at hm
  split at hm
  · split at hm
    · cases hm
    · cases hm
  · dsimp only at hm
    split at hm
    · rw [List.mem_singleton.mp hm]
      simp [Message.convertToMasterResp]
    · cases hm
  · cases hm

theorem deliver (h : s.Sound F) {i : ι} {k : ℕ} (ha : s.Admissible F (.deliver i k)) :
    (s.next F (.deliver i k)).Sound F := by
  cases hk : s.toServers[k]? with
  | none =>
    simp only [next, hk]
    exact h
  | some x =>
    have hx : x ∈ s.toServers := List.mem_of_getElem? hk
    have hsent := h.toServers x hx
    have hpeer : x.1 = F.peerId i := ha x hk
    have hborn : (s.processes i).life ≠ .unborn := by
      have hb := h.sent x hsent
      rw [hpeer] at hb
      exact hb.life
    have hsub : ∀ y ∈ s.toServers.eraseIdx k, y ∈ s.toServers := fun y hy => List.mem_of_mem_eraseIdx hy
    have hothers : ∀ y ∈ s.toServers, y ≠ x → y ∈ s.toServers.eraseIdx k :=
      fun y hy hne => Pool.mem_eraseIdx_of_ne hk hy hne
    have hforeign : ∀ y ∈ s.toServers, y.1 ≠ F.peerId i → y ∈ s.toServers.eraseIdx k := by
      intro y hy hne
      apply hothers y hy
      rintro rfl
      exact hne hpeer
    obtain ⟨q,msg⟩ := x
    by_cases hrun : (s.processes i).life = .running
    · have hchanged : Sound F
          { s with
            processes := Function.update s.processes i ((s.processes i).handle (F.conf i) msg)
            toServers := s.toServers.eraseIdx k } := by
        apply h.changed (s.toServers.eraseIdx k)
        · exact Process.handle_life hborn msg
        · exact hsub
        · exact hforeign
        · intro _ y hy hyp hmakes
          rcases h.received i hrun y hy hyp hmakes with hmade | hin
          · exact Or.inl (Process.handle_madeMaster.mpr (Or.inl hmade))
          · by_cases hyx : y = (q,msg)
            · subst hyx
              exact Or.inl (Process.handle_madeMaster.mpr (Or.inr hmakes))
            · exact Or.inr (hothers y hin hyx)
        · intro hm
          rcases Process.handle_madeMaster.mp hm with hm | hm
          · exact h.made i hm
          · exact ⟨(q,msg),hsent,hpeer,hm⟩
        · intro hm
          rcases Process.handle_madeMaster.mp hm with hm | hm
          · exact handleResp_master (h.converted i hm) msg
          · exact handleResp_makes hm (h.configured i hborn)
        · exact fun hconf => handleResp_master (h.configured i hborn hconf) msg
      have hlife : (Function.update s.processes i ((s.processes i).handle (F.conf i) msg) i).life ≠
          .unborn := by
        rw [Function.update_self]
        exact Process.handle_life hborn msg
      simp only [next, hk]
      rw [if_pos hrun]
      exact hchanged.posted hlife _ (fun m hm hop => absurd hop (handleResp_posts hm))
    · simp only [next, hk, hrun, if_false]
      have hsame := h.changed (p := s.processes i) (s.toServers.eraseIdx k) hborn hsub hforeign
        (fun hl => absurd hl hrun) (h.made i) (h.converted i) (h.configured i hborn)
      rw [Function.update_eq_self] at hsame
      exact hsame

theorem step (h : s.Sound F) {t : FleetState ι} {a : Option (FleetAct ι)} (hst : FleetStep F s a t) :
    t.Sound F := by
  cases hst with
  | reorder hs =>
    have hmoves := h.withRegistry (h.moves_reorder hs)
    simp only [FleetState.withRegistry, List.drop_length, List.append_nil] at hmoves
    exact hmoves
  | @act a ha =>
    cases a with
    | start i => exact h.start ha
    | stop i => exact h.stop ha
    | report i stateInfo =>
      have hborn : (s.processes i).life ≠ .unborn := Life.ne_unborn ha.1
      refine h.posted hborn [Message.stateReport (F.conf i).node.getKey stateInfo] ?_
      intro m hm hop
      rw [List.mem_singleton.mp hm] at hop
      cases hop
    | receive k now =>
      cases hk : s.toRegistry[k]? with
      | none =>
        simp only [next, hk]
        exact h
      | some x =>
        simp only [next, hk]
        exact (h.withRegistry (h.moves_receive (List.mem_of_getElem? hk) now)).taken k
    | run k now =>
      obtain ⟨new,hm⟩ := h.moves_run k now
      exact h.withRegistry hm
    | pass clock =>
      obtain ⟨new,hm⟩ := h.moves_pass clock
      exact h.withRegistry hm
    | deliver i k => exact h.deliver ha

end Sound

end FleetState

end

end GameServer.Cluster
