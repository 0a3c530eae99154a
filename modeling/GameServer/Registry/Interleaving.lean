import GameServer.Registry.Tables

/-! # Registrations that interleave

A `Register` task takes the lock for each of its checks and writes and releases it in
between; the other handlers and a pass of the monitor hold it throughout. There is one
master at most as long as what a task has checked still holds when it writes, and no
elected node answers while another node is recorded.
-/
namespace GameServer.Registry
open Common Library

/-- What a `Register` task does when it gets the lock next. -/
inductive RegisterPc
  | checkRegistered
  | checkMaster (nodeInfo : NodeInfo)
  | writeMaster (nodeInfo : NodeInfo)
  | insertNode (nodeInfo : NodeInfo)

structure RegisterTask where
  msg : Message
  peerId : PeerIdentity
  pc : RegisterPc

namespace RegisterTask

/-- One locked section, and where the task goes on, if it does. -/
def locked (now : ℤ) (c : Center) (t : RegisterTask) : Center × Option RegisterPc :=
  match t.pc with
  | .checkRegistered =>
    if (c.context.nodeList.lookup t.msg.clientId).isSome then
      (c.reply t.peerId (RegisterResp.fail "already register"),none)
    else
      match t.msg.content with
      | none => (c,none)
      | some content =>
        match content.asNodeInfo with
        | none => (c,none) -- the task panics
        | some nodeInfo => (c,some (.checkMaster nodeInfo))
  | .checkMaster nodeInfo =>
    match nodeInfo.nodeType with
    | .Master =>
      if c.context.masterNode.isSome then
        (c.reply t.peerId (RegisterResp.fail "only one master node can exist"),none)
      else (c,some (.writeMaster nodeInfo))
    | .Slave =>
      if c.context.masterNode.isNone then
        (c.reply t.peerId (RegisterResp.fail "master node not exist,can't register slave"),none)
      else (c,some (.insertNode nodeInfo))
  | .writeMaster nodeInfo => (c.setMasterNode nodeInfo,some (.insertNode nodeInfo))
  | .insertNode nodeInfo =>
    ((c.insertNode now t.msg.clientId nodeInfo t.peerId).reply t.peerId RegisterResp.success,none)

/-- The task runs without interruption; it has four sections at most. -/
def alone (now : ℤ) : ℕ → Center → RegisterTask → Center
  | 0, c, _ => c
  | n + 1, c, t =>
    match t.locked now c with
    | (c,none) => c
    | (c,some pc) => alone now n c { t with pc := pc }

end RegisterTask

/-- A task that is not interrupted does what the completed handler does. -/
theorem alone_eq_handleRegister (now : ℤ) (msg : Message) (peerId : PeerIdentity) (c : Center) :
    RegisterTask.alone now 4 c { msg := msg, peerId := peerId, pc := .checkRegistered } =
      (handleRegister now msg peerId c).state := by
  by_cases hin : (c.context.nodeList.lookup msg.clientId).isSome
  · simp [RegisterTask.alone, RegisterTask.locked, handleRegister, hin]
  · cases hc : msg.content with
    | none => simp [RegisterTask.alone, RegisterTask.locked, handleRegister, hin, hc]
    | some content =>
      cases hn : content.asNodeInfo with
      | none => simp [RegisterTask.alone, RegisterTask.locked, handleRegister, hin, hc, hn]
      | some nodeInfo =>
        cases ht : nodeInfo.nodeType <;> cases hm : c.context.masterNode <;>
          simp [RegisterTask.alone, RegisterTask.locked, handleRegister, hin, hc, hn, ht, hm]

/-- The registry with its `Register` tasks, the clients that were answered with success and
are still listed, and whether the monitor is alive. -/
structure Interleaved where
  center : Center
  tasks : List RegisterTask
  answered : List String
  monitoring : Bool

inductive InterleavedAct
  | arrive (nodeInfo : NodeInfo) (nodeType : NodeType) (peerId : PeerIdentity)
  | run (k : ℕ) (now : ℤ)
  | report (clientId : String) (stateInfo : StateInfo) (peerId : PeerIdentity) (now : ℤ)
  | convertToMasterResp (nodeInfo : NodeInfo) (peerId : PeerIdentity) (now : ℤ)
  | pass (clock : String → ℤ)

def RegisterTask.answers (t : RegisterTask) : List String :=
  match t.pc with
  | .insertNode _ => [t.msg.clientId]
  | _ => []

namespace Interleaved

def start : Interleaved where
  center := Center.start
  tasks := []
  answered := []
  monitoring := true

/-- The task at position `k` gets the lock. -/
def run (s : Interleaved) (k : ℕ) (now : ℤ) : Interleaved :=
  match s.tasks[k]? with
  | none => s
  | some t =>
    let (center,pc) := t.locked now s.center
    { s with
      center := center
      tasks := match pc with
        | none => s.tasks.eraseIdx k
        | some pc => s.tasks.set k { t with pc := pc }
      answered := s.answered ++ t.answers }

def next (s : Interleaved) : InterleavedAct → Interleaved
  | .arrive nodeInfo nodeType peerId =>
    { s with tasks := s.tasks ++
        [{ msg := Message.register nodeInfo nodeType, peerId := peerId, pc := .checkRegistered }] }
  | .run k now => s.run k now
  | .report clientId stateInfo peerId now =>
    { s with center := (handleMsgTask now (Message.stateReport clientId stateInfo) peerId s.center).state }
  | .convertToMasterResp nodeInfo peerId now =>
    { s with
      center := (handleMsgTask now (Message.convertToMasterResp nodeInfo) peerId s.center).state }
  | .pass clock =>
    let passed := heartbeatMonitor clock s.center
    { s with
      center := passed.state
      answered := s.answered.filter (fun k => decide (k ∈ passed.state.context.nodeList))
      monitoring := passed.panic.isNone }

/-- Only a node that was sent the command answers it. -/
def Admissible (s : Interleaved) : InterleavedAct → Prop
  | .convertToMasterResp nodeInfo _ _ => nodeInfo.getKey ∈ commands s.center.sent
  | .pass _ => s.monitoring = true
  | _ => True

/-- There is one master at most, and no client was answered with success twice. -/
structure OneMaster (s : Interleaved) : Prop where
  master : ∀ k k' n n', s.center.context.nodeList.lookup k = some n →
    s.center.context.nodeList.lookup k' = some n' → n.nodeType = .Master → n'.nodeType = .Master → k = k'
  answered : s.answered.Nodup

end Interleaved

/-- What the task has checked still holds when it writes. -/
def RegisterTask.Careful (ctx : AppContext) (t : RegisterTask) : Prop :=
  match t.pc with
  | .writeMaster nodeInfo => ∀ m ∈ ctx.masterNode, m.getKey = nodeInfo.getKey
  | .insertNode nodeInfo => nodeInfo.getKey ∉ ctx.nodeState ∧
      (nodeInfo.nodeType = .Master → ctx.masterNode.map NodeInfo.getKey = some nodeInfo.getKey)
  | _ => True

/-- The elected node answers while no other node is recorded. -/
def Interleaved.Careful (s : Interleaved) : Option InterleavedAct → Prop
  | some (.run k _) =>
    match s.tasks[k]? with
    | none => True
    | some t => t.Careful s.center.context
  | some (.convertToMasterResp nodeInfo _ _) =>
    ∀ m ∈ s.center.context.masterNode, m.getKey = nodeInfo.getKey
  | _ => True

inductive InterleavedStep : Interleaved → Option InterleavedAct → Interleaved → Prop
  | act {s : Interleaved} {a : InterleavedAct} : s.Admissible a → InterleavedStep s (some a) (s.next a)
  | reorder {s : Interleaved} {ctx : AppContext} : s.center.context.Same ctx →
      InterleavedStep s none { s with center := { s.center with context := ctx } }

def interleavedLts : Lts Interleaved (Option InterleavedAct) where
  init s := s = Interleaved.start
  step := InterleavedStep

/-! ## What each step preserves -/

def RegisterTask.OfNode (t : RegisterTask) : Prop :=
  match t.pc with
  | .checkRegistered => ∃ nodeInfo nodeType, t.msg = Message.register nodeInfo nodeType
  | .checkMaster nodeInfo => t.msg.clientId = nodeInfo.getKey
  | .writeMaster nodeInfo => t.msg.clientId = nodeInfo.getKey
  | .insertNode nodeInfo => t.msg.clientId = nodeInfo.getKey

/-- Every listed master is the recorded one. -/
def AppContext.Headed (ctx : AppContext) : Prop :=
  ∀ k n, ctx.nodeList.lookup k = some n → n.nodeType = .Master → ctx.masterNode.map NodeInfo.getKey = some k

structure Interleaved.Inv (s : Interleaved) : Prop where
  headed : s.center.context.Headed
  nodup : s.answered.Nodup
  stored : ∀ k ∈ s.answered, k ∈ s.center.context.nodeState
  tasks : ∀ t ∈ s.tasks, t.OfNode

theorem headed_same {ctx ctx' : AppContext} (h : ctx.Headed) (hs : ctx.Same ctx') : ctx'.Headed := by
  intro k n hn hmaster
  rw [hs.masterNode]
  exact h k n ((hs.nodeList k).trans hn) hmaster

/-- A listed master is added under the recorded key. -/
theorem headed_insert {ctx : AppContext} (h : ctx.Headed) {nodeInfo : NodeInfo}
    (hm : nodeInfo.nodeType = .Master → ctx.masterNode.map NodeInfo.getKey = some nodeInfo.getKey)
    (nodeState : HashMap String NodeState) (peers : HashMap String PeerIdentity) :
    AppContext.Headed { ctx with
      nodeList := ctx.nodeList.insert nodeInfo.getKey nodeInfo
      nodeState := nodeState
      nodeIdPeerIdMap := peers } := by
  intro k n hn hmaster
  simp only [AList.lookup_insert_eq] at hn
  split at hn
  · rename_i hk
    obtain rfl := Option.some.inj hn
    rw [hk]
    exact hm hmaster
  · exact h k n hn hmaster

theorem headed_setMasterNode {c : Center} (h : c.context.Headed) {nodeInfo : NodeInfo}
    (hm : ∀ m ∈ c.context.masterNode, m.getKey = nodeInfo.getKey) :
    (c.setMasterNode nodeInfo).context.Headed := by
  intro k n hn hmaster
  obtain ⟨m,hmn,hk⟩ := Option.map_eq_some_iff.mp (h k n hn hmaster)
  rw [← hk, hm m hmn]
  rfl

theorem headed_pass {c : Center} (h : c.context.Headed) (clock : String → ℤ) :
    (heartbeatMonitor clock c).state.context.Headed := by
  rw [heartbeatMonitor_context]
  intro k n hn hmaster
  simp only [AList.lookup_eraseAll] at hn
  split at hn
  · cases hn
  · rename_i hk
    have hold := h k n hn hmaster
    obtain ⟨m,hmn,hmk⟩ := Option.map_eq_some_iff.mp hold
    have hneed : c.context.needElectMaster clock = false := by
      by_contra hne
      obtain ⟨m',hm',hdel⟩ := needElectMaster_iff.mp (Bool.eq_true_of_not_eq_false hne)
      rw [hmn] at hm'
      obtain rfl := Option.some.inj hm'
      exact hk (hmk ▸ hdel)
    simp only [hneed]
    exact hold

/-- A section changes the context only when it records a master or inserts a node. -/
inductive LockedEffect (now : ℤ) (c : Center) (t : RegisterTask) : Prop
  | checks : (t.locked now c).1.context = c.context → t.answers = [] → LockedEffect now c t
  | records (nodeInfo : NodeInfo) : t.pc = .writeMaster nodeInfo →
      (t.locked now c).1 = c.setMasterNode nodeInfo → t.answers = [] → LockedEffect now c t
  | inserts (nodeInfo : NodeInfo) : t.pc = .insertNode nodeInfo → (t.locked now c).1.context =
        (c.insertNode now t.msg.clientId nodeInfo t.peerId).context → t.answers = [t.msg.clientId] →
      LockedEffect now c t

theorem lockedEffect (now : ℤ) (c : Center) (t : RegisterTask) : LockedEffect now c t := by
  cases hp : t.pc with
  | checkRegistered =>
    apply LockedEffect.checks
    · simp only [RegisterTask.locked, hp]
      split
      · rfl
      · split
        · rfl
        · split <;> rfl
    · simp only [RegisterTask.answers, hp]
  | checkMaster nodeInfo =>
    apply LockedEffect.checks
    · simp only [RegisterTask.locked, hp]
      split
      · split <;> rfl
      · split <;> rfl
    · simp only [RegisterTask.answers, hp]
  | writeMaster nodeInfo =>
    exact LockedEffect.records nodeInfo hp (by simp only [RegisterTask.locked, hp])
      (by simp only [RegisterTask.answers, hp])
  | insertNode nodeInfo =>
    exact LockedEffect.inserts nodeInfo hp (by simp only [RegisterTask.locked, hp, Center.reply_context])
      (by simp only [RegisterTask.answers, hp])

theorem ofNode_locked {t : RegisterTask} (h : t.OfNode) {now : ℤ} {c : Center} {pc : RegisterPc}
    (hpc : (t.locked now c).2 = some pc) : RegisterTask.OfNode { t with pc := pc } := by
  cases hp : t.pc with
  | checkRegistered =>
    simp only [RegisterTask.OfNode, hp] at h
    obtain ⟨nodeInfo,nodeType,hmsg⟩ := h
    simp only [RegisterTask.locked, hp, hmsg, Message.register, Content.asNodeInfo] at hpc
    split at hpc
    · cases hpc
    · obtain rfl := Option.some.inj hpc
      simp only [RegisterTask.OfNode, hmsg, Message.register]
  | checkMaster nodeInfo =>
    simp only [RegisterTask.OfNode, hp] at h
    simp only [RegisterTask.locked, hp] at hpc
    split at hpc
    · split at hpc
      · cases hpc
      · obtain rfl := Option.some.inj hpc
        exact h
    · split at hpc
      · cases hpc
      · obtain rfl := Option.some.inj hpc
        exact h
  | writeMaster nodeInfo =>
    simp only [RegisterTask.OfNode, hp] at h
    simp only [RegisterTask.locked, hp] at hpc
    obtain rfl := Option.some.inj hpc
    exact h
  | insertNode nodeInfo =>
    simp only [RegisterTask.locked, hp] at hpc
    cases hpc

theorem tasks_run {s : Interleaved} (h : ∀ t ∈ s.tasks, t.OfNode) (k : ℕ) (now : ℤ) :
    ∀ t ∈ (s.run k now).tasks, t.OfNode := by
  intro t' ht'
  cases hk : s.tasks[k]? with
  | none =>
    simp only [Interleaved.run, hk] at ht'
    exact h t' ht'
  | some t =>
    simp only [Interleaved.run, hk] at ht'
    cases hpc : (t.locked now s.center).2 with
    | none =>
      simp only [hpc] at ht'
      exact h t' (List.mem_of_mem_eraseIdx ht')
    | some pc =>
      simp only [hpc] at ht'
      rcases List.mem_or_eq_of_mem_set ht' with hold | rfl
      · exact h t' hold
      · exact ofNode_locked (h t (List.mem_of_getElem? hk)) hpc

theorem tasks_arrive {s : Interleaved} (h : ∀ t ∈ s.tasks, t.OfNode) (nodeInfo : NodeInfo)
    (nodeType : NodeType) (peerId : PeerIdentity) :
    ∀ t ∈ (s.next (.arrive nodeInfo nodeType peerId)).tasks, t.OfNode := by
  intro t ht
  rcases List.mem_append.mp ht with hold | hnew
  · exact h t hold
  · rw [List.mem_singleton.mp hnew]
    exact ⟨nodeInfo,nodeType,rfl⟩

namespace Interleaved.Inv
variable {s : Interleaved}

theorem run (h : s.Inv) {k : ℕ} {now : ℤ} (hc : s.Careful (some (.run k now))) : (s.run k now).Inv := by
  cases hk : s.tasks[k]? with
  | none =>
    simp only [Interleaved.run, hk]
    exact h
  | some t =>
    have ht : t.OfNode := h.tasks t (List.mem_of_getElem? hk)
    have hcare : t.Careful s.center.context := by simpa only [Interleaved.Careful, hk] using hc
    have htasks := tasks_run h.tasks k now
    cases lockedEffect now s.center t with
    | checks hctx hans =>
      refine ⟨?_,?_,?_,htasks⟩
      · simp only [Interleaved.run, hk, hctx]
        exact h.headed
      · simp only [Interleaved.run, hk, hans, List.append_nil]
        exact h.nodup
      · simp only [Interleaved.run, hk, hans, List.append_nil, hctx]
        exact h.stored
    | records nodeInfo hp hctx hans =>
      simp only [RegisterTask.Careful, hp] at hcare
      refine ⟨?_,?_,?_,htasks⟩
      · simp only [Interleaved.run, hk, hctx]
        exact headed_setMasterNode h.headed hcare
      · simp only [Interleaved.run, hk, hans, List.append_nil]
        exact h.nodup
      · simp only [Interleaved.run, hk, hans, List.append_nil, hctx]
        exact h.stored
    | inserts nodeInfo hp hctx hans =>
      simp only [RegisterTask.Careful, hp] at hcare
      simp only [RegisterTask.OfNode, hp] at ht
      rw [ht] at hctx hans
      refine ⟨?_,?_,?_,htasks⟩
      · simp only [Interleaved.run, hk, hctx]
        exact headed_insert h.headed hcare.2 _ _
      · simp only [Interleaved.run, hk, hans]
        apply List.Nodup.append h.nodup (List.nodup_singleton _)
        rw [List.disjoint_singleton]
        exact fun hin => hcare.1 (h.stored _ hin)
      · simp only [Interleaved.run, hk, hans, hctx, Center.insertNode, List.mem_append,
          List.mem_singleton, AList.mem_insert]
        exact fun key hkey => hkey.symm.imp_right (h.stored key)

theorem pass (h : s.Inv) (clock : String → ℤ) : (s.next (.pass clock)).Inv := by
  have hctx := heartbeatMonitor_context clock s.center
  refine ⟨headed_pass h.headed clock,h.nodup.filter _,?_,h.tasks⟩
  intro k hk
  simp only [Interleaved.next, hctx, List.mem_filter, decide_eq_true_eq] at hk ⊢
  exact AList.mem_eraseAll.mpr ⟨h.stored k hk.1,(AList.mem_eraseAll.mp hk.2).2⟩

theorem convertToMasterResp (h : s.Inv) {nodeInfo : NodeInfo} {peerId : PeerIdentity} {now : ℤ}
    (hc : s.Careful (some (.convertToMasterResp nodeInfo peerId now))) :
    (s.next (.convertToMasterResp nodeInfo peerId now)).Inv := by
  have hset := headed_setMasterNode h.headed hc
  exact ⟨headed_insert hset (fun _ => rfl) _ _,h.nodup,h.stored,h.tasks⟩

theorem step (h : s.Inv) {t : Interleaved} {a : Option InterleavedAct} (hc : s.Careful a)
    (hst : InterleavedStep s a t) : t.Inv := by
  cases hst with
  | reorder hs =>
    refine ⟨headed_same h.headed hs,h.nodup,?_,h.tasks⟩
    exact fun k hk => (hs.nodeState.mem_iff k).mpr (h.stored k hk)
  | @act a ha =>
    cases a with
    | arrive nodeInfo nodeType peerId =>
      exact ⟨h.headed,h.nodup,h.stored,tasks_arrive h.tasks nodeInfo nodeType peerId⟩
    | run k now => exact h.run hc
    | report clientId stateInfo peerId now =>
      refine ⟨h.headed,h.nodup,?_,h.tasks⟩
      intro k hk
      simp only [Interleaved.next, handleReport_eq, Outcome.ok_state]
      exact AList.mem_adjust.mpr (h.stored k hk)
    | convertToMasterResp nodeInfo peerId now => exact h.convertToMasterResp hc
    | pass clock => exact h.pass clock

end Interleaved.Inv

/-- If every task writes while what it has checked still holds, and the elected node answers
while no other node is recorded, there is one master at most and no client is answered
with success twice. -/
theorem one_master {past : List (Interleaved × Option InterleavedAct)} {s : Interleaved}
    (h : Run interleavedLts past s) (hc : ∀ p ∈ past, p.1.Careful p.2) : s.OneMaster := by
  have hi : s.Inv := by
    apply h.invariant_of (C := fun s a => s.Careful a) _ _ hc
    · rintro s rfl
      refine ⟨?_,List.nodup_nil,?_,?_⟩
      · intro k n hn
        cases hn
      · intro k hk
        cases hk
      · intro t ht
        cases ht
    · exact fun s a t hs hc hst => hs.step hc hst
  refine ⟨?_,hi.nodup⟩
  intro k k' n n' hn hn' hm hm'
  have hk := hi.headed k n hn hm
  rw [hi.headed k' n' hn' hm'] at hk
  exact (Option.some.inj hk).symm

/-! ## Two masters at once -/

instance (s : Interleaved) (a : InterleavedAct) : Decidable (s.Admissible a) :=
  match a with
  | .convertToMasterResp nodeInfo _ _ => inferInstanceAs (Decidable (nodeInfo.getKey ∈ commands s.center.sent))
  | .pass _ => inferInstanceAs (Decidable (s.monitoring = true))
  | .arrive _ _ _ => isTrue trivial
  | .run _ _ => isTrue trivial
  | .report _ _ _ _ => isTrue trivial

instance (ctx : AppContext) (t : RegisterTask) : Decidable (t.Careful ctx) :=
  match t with
  | ⟨_,_,.writeMaster nodeInfo⟩ =>
    inferInstanceAs (Decidable (∀ m ∈ ctx.masterNode, m.getKey = nodeInfo.getKey))
  | ⟨_,_,.insertNode nodeInfo⟩ =>
    inferInstanceAs (Decidable (nodeInfo.getKey ∉ ctx.nodeState ∧
      (nodeInfo.nodeType = .Master → ctx.masterNode.map NodeInfo.getKey = some nodeInfo.getKey)))
  | ⟨_,_,.checkRegistered⟩ => isTrue trivial
  | ⟨_,_,.checkMaster _⟩ => isTrue trivial

instance (s : Interleaved) (a : Option InterleavedAct) : Decidable (s.Careful a) :=
  match a with
  | some (.run k _) =>
    match h : s.tasks[k]? with
    | none => isTrue (by simp only [Interleaved.Careful, h])
    | some t => decidable_of_iff (t.Careful s.center.context) (by simp only [Interleaved.Careful, h])
  | some (.convertToMasterResp nodeInfo _ _) =>
    inferInstanceAs (Decidable (∀ m ∈ s.center.context.masterNode, m.getKey = nodeInfo.getKey))
  | some (.arrive _ _ _) => isTrue trivial
  | some (.report _ _ _ _) => isTrue trivial
  | some (.pass _) => isTrue trivial
  | none => isTrue trivial

theorem run_interleaved (acts : List InterleavedAct)
    (ha : Run.Allowed Interleaved.next Interleaved.Admissible Interleaved.start acts) :
    Run interleavedLts (Run.record Interleaved.next some Interleaved.start acts)
      (acts.foldl Interleaved.next Interleaved.start) :=
  Run.of_start Interleaved.next Interleaved.Admissible some (fun _ _ h => InterleavedStep.act h) rfl ha

def twoMasters (order : List ℕ) : List InterleavedAct :=
  .arrive Server.GameServerConf.master.node .Master "master" ::
    .arrive { heir with nodeType := .Master } .Master "heir" :: order.map (fun k => .run k 0)

theorem one_master_in_turn :
    ((twoMasters [0,0,0,0,0,0]).foldl Interleaved.next Interleaved.start).OneMaster :=
  one_master (run_interleaved (twoMasters [0,0,0,0,0,0]) (by decide +kernel)) (by decide +kernel)

/-- Both find that no master exists before either has recorded itself. -/
theorem two_masters_alternating : ∃ past s, Run interleavedLts past s ∧ ¬ s.OneMaster := by
  refine ⟨_,_,run_interleaved (twoMasters [0,1,0,1,0,1,0,0]) (by decide +kernel),?_⟩
  intro h
  have hne : Server.GameServerConf.master.node.getKey ≠ heir.getKey := by decide +kernel
  apply hne
  apply h.master _ _ Server.GameServerConf.master.node { heir with nodeType := .Master } _ _ rfl rfl
  · decide +kernel
  · decide +kernel

end GameServer.Registry
