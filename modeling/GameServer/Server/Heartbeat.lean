import GameServer.Library.Detector
import GameServer.Server.SingleNode

/-! # The heartbeats of the clients

The table of last heartbeats is written by the channel that answers pings, and the monitor
locks it for a whole pass: it reads the clock once for every entry, takes an overdue client
off the world on the spot, and removes the overdue entries when it is through. Requests are
handled all the while. A client stays logged in until it logs out or a pass finds its last
ping too old, and a panic while a client is taken off ends the monitor for good.
-/
namespace GameServer.Server
open Common Library Detector

/-! ## What a handler does to the session table -/

section
variable (env : Surroundings) (ctx : ServerContext) (w : World) (peerId : PeerIdentity) (msg : Message)

theorem clientMap_doAoe : (doAoeInSelfWorld env ctx w peerId msg).world.clientMap = w.clientMap := by
  unfold doAoeInSelfWorld
  split
  · rfl
  · split
    · rfl
    · rw [Handled.after_world (fun w => Handled.reply_world _ w _ _)]
      exact aoe_clientMap env.overflow env.order w _ _ _

theorem clientMap_doSetVelocity : (doSetVelocityInSelfWorld ctx w peerId msg).world.clientMap = w.clientMap := by
  unfold doSetVelocityInSelfWorld
  split
  · rfl
  · split
    · rfl
    · rw [Handled.reply_world]
      exact setVelocity_clientMap w _ _

theorem clientMap_handleOperation {p q : Handled} (hp : p.world.clientMap = w.clientMap)
    (hq : q.world.clientMap = w.clientMap) (isCluster isSlave : Bool) :
    (handleOperation isCluster isSlave p q).world.clientMap = w.clientMap := by
  unfold handleOperation
  split
  · split
    · exact hq
    · exact hp
  · exact hp

theorem clientMap_handleLogin (c : String) (hop : msg.operation = .Login) :
    (handleLogin env ctx w peerId msg).world.clientMap.lookup c =
      if msg.clientId = c ∧ w.Draws msg then some env.nextId else w.clientMap.lookup c := by
  unfold handleLogin
  cases hl : w.clientMap.lookup msg.clientId with
  | some id =>
    have hdraw : ¬ w.Draws msg := fun hd => by simp [World.Draws, hl] at hd
    simp only [hdraw, and_false, if_false, Option.isSome_some, if_true]
    rfl
  | none =>
    have hdraw : w.Draws msg := ⟨hop,hl⟩
    have hinsert : (w.clientMap.insert msg.clientId env.nextId).lookup c =
        if msg.clientId = c ∧ w.Draws msg then some env.nextId else w.clientMap.lookup c := by
      simp only [AList.lookup_insert_eq, hdraw, and_true, eq_comm]
    rw [if_neg (by simp), ← hinsert]
    dsimp only
    split
    · rfl
    · rw [Handled.reply_world]
      rfl

theorem clientMap_handleLogout (c : String) : (handleLogout ctx w peerId msg).world.clientMap.lookup c =
    if msg.clientId = c then none else w.clientMap.lookup c := by
  have herase : (w.clientMap.erase msg.clientId).lookup c =
      if msg.clientId = c then none else w.clientMap.lookup c := by
    simp only [AList.lookup_erase_eq, eq_comm]
  unfold handleLogout
  split
  · cases hl : w.clientMap.lookup msg.clientId with
    | none =>
      dsimp only [Handled.panicked_world]
      split
      · rename_i hc
        rw [← hc]
        exact hl
      · rfl
    | some id =>
      dsimp only
      rw [Handled.forward_world]
      exact herase
  · rw [Handled.after_world (fun w => Handled.reply_world _ w _ _), removeUserByClientId_clientMap]
    exact herase

theorem clientMap_of_quiet (hlogin : msg.operation ≠ .Login) (hlogout : msg.operation ≠ .Logout) :
    (handleMsgTask env ctx w peerId msg).world.clientMap = w.clientMap := by
  have hredirect : ∀ msg clientId, (redirectMsgToMaster ctx w msg clientId).world.clientMap = w.clientMap := by
    intro msg clientId
    rw [redirectMsgToMaster, Handled.forward_world]
  unfold handleMsgTask
  dsimp only
  split
  · contradiction
  · contradiction
  · unfold handleAddUser
    split
    · rfl
    · rw [Handled.reply_world]
      rfl
  · unfold handleDelUser
    split
    · rfl
    · rw [Handled.after_world (fun w => Handled.reply_world _ w _ _)]
      exact removeUser_clientMap w _
  · exact clientMap_handleOperation w (clientMap_doAoe env ctx w peerId msg) (hredirect _ _) _ _
  · exact clientMap_handleOperation w (clientMap_doSetVelocity ctx w peerId msg) (hredirect _ _) _ _
  · unfold handleQuery
    split
    · rfl
    · rw [Handled.reply_world]
  · rfl

/-- Only a login that draws an id and a logout change the entry of a client, whatever the role
of the node and whether or not the handler panics. -/
theorem clientMap_handleMsgTask (c : String) : (handleMsgTask env ctx w peerId msg).world.clientMap.lookup c =
    if msg.clientId = c ∧ msg.operation = .Logout then none
    else if msg.clientId = c ∧ w.Draws msg then some env.nextId else w.clientMap.lookup c := by
  by_cases hlogin : msg.operation = .Login
  · have hhandle : handleMsgTask env ctx w peerId msg = handleLogin env ctx w peerId msg := by
      simp only [handleMsgTask, hlogin]
    rw [hhandle, if_neg (by simp [hlogin])]
    exact clientMap_handleLogin env ctx w peerId msg c hlogin
  · have hdraw : ¬ w.Draws msg := fun hd => hlogin hd.1
    by_cases hlogout : msg.operation = .Logout
    · have hhandle : handleMsgTask env ctx w peerId msg = handleLogout ctx w peerId msg := by
        simp only [handleMsgTask, hlogout]
      simp only [hhandle, hdraw, hlogout, and_true, and_false, if_false]
      exact clientMap_handleLogout ctx w peerId msg c
    · rw [if_neg (fun hc => hlogout hc.2), if_neg (fun hc => hdraw hc.2),
        clientMap_of_quiet env ctx w peerId msg hlogin hlogout]

theorem clientMap_removeOfflineClient (clientId c : String) :
    (removeOfflineClient ctx w clientId).world.clientMap.lookup c =
      if clientId = c then none else w.clientMap.lookup c := by
  have herase : (w.clientMap.erase clientId).lookup c =
      if clientId = c then none else w.clientMap.lookup c := by
    simp only [AList.lookup_erase_eq, eq_comm]
  unfold removeOfflineClient
  cases ctx.nodeType with
  | Master =>
    dsimp only
    rw [Handled.after_world Handled.done_world, removeUserByClientId_clientMap]
    exact herase
  | Slave =>
    cases hl : w.clientMap.lookup clientId with
    | none =>
      dsimp only [Handled.done_world]
      split
      · rename_i hc
        rw [← hc]
        exact hl
      · rfl
    | some id =>
      dsimp only
      rw [Handled.forward_world]
      exact herase

end

theorem worldUpdateRound_clientMap (ctx : ServerContext) (w : World) :
    (worldUpdateRound ctx w).state.clientMap = w.clientMap := by
  unfold worldUpdateRound
  split
  · cases ctx.nodeType with
    | Master => exact update_clientMap w
    | Slave => rfl
  · exact update_clientMap w

/-! ## A node and its monitor -/

/-- The monitor while it holds the lock of the table: the entries it has still to visit, the
clients it has found overdue, and what the clock said at each visit. -/
structure MonitorPass where
  left : List (Σ _ : String, ℤ)
  delList : List String
  clock : String → ℤ

/-- A node with its table of heartbeats; a panic ends the monitor. -/
structure MonitoredNode where
  context : ServerContext
  node : NodeState
  lastTime : HashMap String ℤ
  pass : Option MonitorPass
  monitoring : Bool

inductive MonitoredAct
  | request (env : Surroundings) (peerId : PeerIdentity) (msg : Message)
  | round
  | syncWorld (dto : WorldSyncDTO)
  | convertToMaster
  | ping (clientId : String) (now : ℤ)
  | lock
  | visit (now : ℤ)
  | finish

namespace MonitoredNode

def start (conf : GameServerConf) : MonitoredNode where
  context := ServerContext.run conf
  node := { world := World.init conf, used := ∅ }
  lastTime := ∅
  pass := none
  monitoring := true

def task (s : MonitoredNode) (a : NodeTask) : MonitoredNode := { s with node := s.node.next s.context a }

/-- One turn of the loop: `e` is the next entry and `p` the pass without it. -/
def visit (heartbeat : ℤ) (s : MonitoredNode) (p : MonitorPass) (e : Σ _ : String, ℤ) (now : ℤ) :
    MonitoredNode :=
  let p := { p with clock := Function.update p.clock e.1 now }
  if now - e.2 > heartbeat then
    let removed := removeOfflineClient s.context s.node.world e.1
    { s.task (.expire e.1) with
      pass := if removed.panic.isNone then some { p with delList := p.delList ++ [e.1] } else none
      monitoring := removed.panic.isNone }
  else { s with pass := some p }

/-- The end of a pass: the entries go, and the rest are counted. -/
def finish (s : MonitoredNode) (p : MonitorPass) : MonitoredNode :=
  let lastTime := s.lastTime.eraseAll p.delList
  { s.task (.countConnections (UInt32.ofNat lastTime.entries.length)) with
    lastTime := lastTime
    pass := none }

def next (heartbeat : ℤ) (s : MonitoredNode) : MonitoredAct → MonitoredNode
  | .request env peerId msg => s.task (.request env peerId msg)
  | .round => s.task .round
  | .syncWorld dto => { s with node := { s.node with world := (s.node.world.syncFromMaster dto).state } }
  | .convertToMaster => { s with context := convertSelfToMaster s.context }
  | .ping clientId now => { s with lastTime := s.lastTime.insert clientId now }
  | .lock => { s with pass := some { left := s.lastTime.entries, delList := [], clock := fun _ => 0 } }
  | .visit now =>
    match s.pass with
    | some { left := e :: left, delList := delList, clock := clock } =>
      s.visit heartbeat { left := left, delList := delList, clock := clock } e now
    | _ => s
  | .finish =>
    match s.pass with
    | some p => s.finish p
    | none => s

/-- A ping is entered and a pass begun only while nobody holds the lock of the table. -/
def Admissible (s : MonitoredNode) : MonitoredAct → Prop
  | .ping _ _ => s.pass = none
  | .lock => s.pass = none ∧ s.monitoring = true
  | .visit _ => ∃ p, s.pass = some p ∧ p.left ≠ []
  | .finish => ∃ p, s.pass = some p ∧ p.left = []
  | _ => True

end MonitoredNode

inductive MonitoredStep (heartbeat : ℤ) : MonitoredNode → Option MonitoredAct → MonitoredNode → Prop
  | act {s : MonitoredNode} {a : MonitoredAct} : s.Admissible a →
      MonitoredStep heartbeat s (some a) (s.next heartbeat a)
  | reorder {s : MonitoredNode} {w : World} {lastTime : HashMap String ℤ} : s.node.world.Same w →
      s.lastTime.Same lastTime →
      MonitoredStep heartbeat s none { s with node := { s.node with world := w }, lastTime := lastTime }

def monitoredLts (conf : GameServerConf) : Lts MonitoredNode (Option MonitoredAct) where
  init s := s = MonitoredNode.start conf
  step := MonitoredStep conf.basic.heartbeat

/-! ## What the table of heartbeats tells -/

/-- What the table hears: a ping makes an entry, and a pass that is through drops some. -/
def heardPing (s : MonitoredNode) : Option MonitoredAct → Option (Sign String ℤ)
  | some (.ping clientId now) => some (.enrol clientId now)
  | some .finish => s.pass.map (fun p => .pass p.clock)
  | _ => none

abbrev pingsIn (past : List (MonitoredNode × Option MonitoredAct)) : List (Sign String ℤ) := signs heardPing past

/-- The table is as the pass found it, and the pass has listed what it found overdue. -/
structure MonitorPass.Sound (heartbeat : ℤ) (lastTime : HashMap String ℤ) (p : MonitorPass) : Prop where
  left : ∀ e ∈ p.left, lastTime.lookup e.1 = some e.2
  nodup : (p.left.map Sigma.fst).Nodup
  visited : ∀ k t, lastTime.lookup k = some t → k ∉ p.left.map Sigma.fst →
    (k ∈ p.delList ↔ heartbeat < p.clock k - t)
  delList : ∀ k ∈ p.delList, k ∉ p.left.map Sigma.fst

def MonitoredNode.Passing (heartbeat : ℤ) (s : MonitoredNode) : Prop :=
  ∀ p, s.pass = some p → p.Sound heartbeat s.lastTime

theorem MonitorPass.sound_lock (heartbeat : ℤ) (lastTime : HashMap String ℤ) :
    MonitorPass.Sound heartbeat lastTime { left := lastTime.entries, delList := [], clock := fun _ => 0 } where
  left e he := AList.mem_entries_iff.mp he
  nodup := lastTime.nodupKeys
  visited k t hk hleft := by
    have hin : k ∈ lastTime := AList.mem_of_lookup hk
    exact absurd (AList.mem_keys.mp hin) hleft
  delList k hk := by cases hk

section
variable {heartbeat : ℤ} {lastTime : HashMap String ℤ} {p : MonitorPass}

theorem MonitorPass.Sound.visit {e : Σ _ : String, ℤ} {left : List (Σ _ : String, ℤ)}
    (h : p.Sound heartbeat lastTime) (hl : p.left = e :: left) (now : ℤ) {delList : List String}
    (hd : ∀ k, k ∈ delList ↔ k ∈ p.delList ∨ k = e.1 ∧ heartbeat < now - e.2) :
    MonitorPass.Sound heartbeat lastTime
      { left := left, delList := delList, clock := Function.update p.clock e.1 now } := by
  have hnodup := h.nodup
  rw [hl, List.map_cons, List.nodup_cons] at hnodup
  have hnot : e.1 ∉ p.delList := by
    intro hk
    apply h.delList e.1 hk
    rw [hl]
    exact List.mem_cons_self
  refine ⟨?_,hnodup.2,?_,?_⟩
  · intro e' he'
    apply h.left e'
    rw [hl]
    exact List.mem_cons_of_mem e he'
  · intro k t hk hleft
    rw [hd]
    by_cases hke : k = e.1
    · subst hke
      have hentry := h.left e (by rw [hl]; exact List.mem_cons_self)
      rw [hk] at hentry
      obtain rfl := Option.some.inj hentry
      simp [hnot]
    · have hold : k ∉ p.left.map Sigma.fst := by
        rw [hl, List.map_cons, List.mem_cons]
        exact fun hc => hc.elim hke hleft
      simp only [hke, false_and, or_false, Function.update_of_ne hke]
      exact h.visited k t hk hold
  · intro k hk
    rcases (hd k).mp hk with hold | ⟨rfl,-⟩
    · intro hin
      apply h.delList k hold
      rw [hl]
      exact List.mem_cons_of_mem _ hin
    · exact hnodup.1

theorem MonitorPass.Sound.same {lastTime' : HashMap String ℤ} (h : p.Sound heartbeat lastTime)
    (hs : lastTime.Same lastTime') : p.Sound heartbeat lastTime' where
  left e he := (hs e.1).symm.trans (h.left e he)
  nodup := h.nodup
  visited k t hk := h.visited k t ((hs k).trans hk)
  delList := h.delList

/-- What is left of the table when the pass is through. -/
theorem lookup_finish (h : p.Sound heartbeat lastTime) (hl : p.left = []) (k : String) :
    (lastTime.eraseAll p.delList).lookup k = (lastTime.lookup k).filter
      (fun t => decide (p.clock k - t ≤ heartbeat)) := by
  rw [AList.lookup_eraseAll]
  cases hk : lastTime.lookup k with
  | none => split <;> rfl
  | some t =>
    have hv := h.visited k t hk (by rw [hl]; exact List.not_mem_nil)
    by_cases hlate : heartbeat < p.clock k - t
    · rw [if_pos (hv.mpr hlate)]
      symm
      apply Option.filter_some_neg
      exact decide_eq_false (Int.not_le.mpr hlate)
    · rw [if_neg (fun hd => hlate (hv.mp hd))]
      symm
      apply Option.filter_some_pos
      exact decide_eq_true (Int.not_lt.mp hlate)

variable {s t : MonitoredNode} {a : Option MonitoredAct}

theorem passing_visit {e : Σ _ : String, ℤ} {left : List (Σ _ : String, ℤ)} (h : s.Passing heartbeat)
    (hp : s.pass = some p) (hl : p.left = e :: left) (now : ℤ) :
    (s.visit heartbeat { p with left := left } e now).Passing heartbeat ∧
      (s.visit heartbeat { p with left := left } e now).lastTime = s.lastTime := by
  have hsound := h p hp
  unfold MonitoredNode.visit
  dsimp only
  split
  · rename_i hlate
    refine ⟨?_,rfl⟩
    intro q hq
    dsimp only at hq
    split at hq
    · obtain rfl := Option.some.inj hq
      apply hsound.visit hl now
      intro k
      simp [hlate]
    · cases hq
  · rename_i hlate
    refine ⟨?_,rfl⟩
    intro q hq
    obtain rfl := Option.some.inj hq
    apply hsound.visit hl now
    intro k
    have hno : ¬ heartbeat < now - e.2 := hlate
    simp [hno]

/-- Each step keeps the pass sound and changes the table as what it hears does. -/
theorem passing_step (h : s.Passing heartbeat) (hst : MonitoredStep heartbeat s a t) : t.Passing heartbeat ∧
    t.lastTime.lookup = hearStep id heartbeat s.lastTime.lookup (heardPing s a) := by
  cases hst with
  | reorder hw hs =>
    refine ⟨fun p hp => (h p hp).same hs,?_⟩
    funext k
    exact (hs k).symm
  | @act a ha =>
    cases a with
    | request env peerId msg => exact ⟨h,rfl⟩
    | round => exact ⟨h,rfl⟩
    | syncWorld dto => exact ⟨h,rfl⟩
    | convertToMaster => exact ⟨h,rfl⟩
    | ping clientId now =>
      have hnone : s.pass = none := ha
      refine ⟨?_,?_⟩
      · intro p hp
        simp only [MonitoredNode.next, hnone] at hp
        cases hp
      · funext k
        simp only [MonitoredNode.next, AList.lookup_insert_eq, heardPing, hearStep, hear]
    | lock =>
      refine ⟨?_,rfl⟩
      intro p hp
      obtain rfl := Option.some.inj hp
      exact MonitorPass.sound_lock heartbeat s.lastTime
    | visit now =>
      obtain ⟨p,hp,hne⟩ := ha
      obtain ⟨e,left,hl⟩ := List.exists_cons_of_ne_nil hne
      obtain ⟨left',delList,clock⟩ := p
      dsimp only at hl
      subst hl
      have hv := passing_visit h hp rfl now
      simp only [MonitoredNode.next, hp]
      exact ⟨hv.1,by rw [hv.2]; rfl⟩
    | finish =>
      obtain ⟨p,hp,hl⟩ := ha
      simp only [MonitoredNode.next, hp]
      refine ⟨?_,?_⟩
      · intro q hq
        cases hq
      · funext k
        simp only [MonitoredNode.finish, heardPing, hp, Option.map_some, hearStep, hear]
        exact lookup_finish (h p hp) hl k

end

theorem passing_start (conf : GameServerConf) : (MonitoredNode.start conf).Passing conf.basic.heartbeat := by
  intro p hp
  cases hp

theorem passing_of_run {conf : GameServerConf} {past : List (MonitoredNode × Option MonitoredAct)}
    {s : MonitoredNode} (h : Run (monitoredLts conf) past s) : s.Passing conf.basic.heartbeat := by
  apply h.invariant
  · rintro s rfl
    exact passing_start conf
  · exact fun s a t hs hst => (passing_step hs hst).1

/-- The table of a run is that of a detector which heard its pings and its passes. -/
theorem lastTime_eq_watched {conf : GameServerConf} {past : List (MonitoredNode × Option MonitoredAct)}
    {s : MonitoredNode} (h : Run (monitoredLts conf) past s) :
    s.lastTime.lookup = watched id conf.basic.heartbeat (pingsIn past) := by
  apply table_eq_watched (I := MonitoredNode.Passing conf.basic.heartbeat) _ _ h
  · rintro s rfl
    exact ⟨passing_start conf,rfl⟩
  · exact fun s a t hs hst => passing_step hs hst

/-! ## Who is logged in -/

def LogsIn (c : String) (id : UserId) (p : MonitoredNode × Option MonitoredAct) : Prop :=
  ∃ env peerId msg, p.2 = some (.request env peerId msg) ∧ msg.clientId = c ∧
    p.1.node.world.Draws msg ∧ env.nextId = id

def LogsOut (c : String) (p : MonitoredNode × Option MonitoredAct) : Prop :=
  ∃ env peerId msg, p.2 = some (.request env peerId msg) ∧ msg.clientId = c ∧ msg.operation = .Logout

/-- The monitor reads the clock `now` for the client and finds its entry overdue. -/
def Expires (heartbeat : ℤ) (c : String) (t now : ℤ) (p : MonitoredNode × Option MonitoredAct) : Prop :=
  p.2 = some (.visit now) ∧ (∃ q left, p.1.pass = some q ∧ q.left = ⟨c,t⟩ :: left) ∧ heartbeat < now - t

def EndsSession (heartbeat : ℤ) (c : String) (p : MonitoredNode × Option MonitoredAct) : Prop :=
  LogsOut c p ∨ ∃ t now, Expires heartbeat c t now p

section
variable {heartbeat : ℤ} {s t : MonitoredNode} {a : Option MonitoredAct} {c : String}

theorem clientMap_visit (heartbeat : ℤ) (s : MonitoredNode) (p : MonitorPass) (e : Σ _ : String, ℤ) (now : ℤ)
    (c : String) :
    (s.visit heartbeat p e now).node.world.clientMap.lookup c =
      if heartbeat < now - e.2 ∧ e.1 = c then none else s.node.world.clientMap.lookup c := by
  unfold MonitoredNode.visit
  dsimp only
  split
  · rename_i hlate
    have hd : heartbeat < now - e.2 := hlate
    simp only [hd, true_and]
    exact clientMap_removeOfflineClient s.context s.node.world e.1 c
  · rename_i hlate
    have hd : ¬ heartbeat < now - e.2 := hlate
    simp only [hd, false_and, if_false]

/-- What a step does to the entry of a client. -/
inductive SessionStep (heartbeat : ℤ) (c : String) (s : MonitoredNode) (a : Option MonitoredAct)
    (t : MonitoredNode) : Prop
  | begins {id : UserId} : LogsIn c id (s,a) → s.node.world.clientMap.lookup c = none →
      t.node.world.clientMap.lookup c = some id → SessionStep heartbeat c s a t
  | ends : EndsSession heartbeat c (s,a) → t.node.world.clientMap.lookup c = none →
      SessionStep heartbeat c s a t
  | keeps : (∀ id, ¬ LogsIn c id (s,a)) → ¬ EndsSession heartbeat c (s,a) →
      t.node.world.clientMap.lookup c = s.node.world.clientMap.lookup c → SessionStep heartbeat c s a t

theorem logsIn_unique {p : MonitoredNode × Option MonitoredAct} {id id' : UserId} (h : LogsIn c id p)
    (h' : LogsIn c id' p) : id = id' := by
  obtain ⟨env,peerId,msg,he,-,-,rfl⟩ := h
  obtain ⟨env',peerId',msg',he',-,-,rfl⟩ := h'
  cases he.symm.trans he'
  rfl

theorem not_endsSession_of_logsIn {p : MonitoredNode × Option MonitoredAct} {id : UserId} (h : LogsIn c id p) :
    ¬ EndsSession heartbeat c p := by
  obtain ⟨env,peerId,msg,he,-,hd,-⟩ := h
  rintro (⟨env',peerId',msg',he',-,hop⟩ | ⟨t,now,he',-⟩)
  · cases he.symm.trans he'
    exact absurd (hop.symm.trans hd.1) (by decide)
  · cases he.symm.trans he'

/-- Neither a request nor a visit of the monitor touches the sessions. -/
theorem session_quiet (hreq : ∀ env peerId msg, a ≠ some (.request env peerId msg))
    (hvis : ∀ now, a ≠ some (.visit now))
    (hkeep : t.node.world.clientMap.lookup c = s.node.world.clientMap.lookup c) :
    SessionStep heartbeat c s a t := by
  refine SessionStep.keeps ?_ ?_ hkeep
  · rintro id ⟨env,peerId,msg,he,-⟩
    exact hreq env peerId msg he
  · rintro (⟨env,peerId,msg,he,-⟩ | ⟨t,now,he,-⟩)
    · exact hreq env peerId msg he
    · exact hvis now he

theorem session_request (s : MonitoredNode) (env : Surroundings) (peerId : PeerIdentity) (msg : Message) :
    SessionStep heartbeat c s (some (.request env peerId msg)) (s.next heartbeat (.request env peerId msg)) := by
  have hmap := clientMap_handleMsgTask env s.context s.node.world peerId msg c
  by_cases hout : msg.clientId = c ∧ msg.operation = .Logout
  · exact SessionStep.ends (Or.inl ⟨env,peerId,msg,rfl,hout⟩) (hmap.trans (if_pos hout))
  · rw [if_neg hout] at hmap
    by_cases hin : msg.clientId = c ∧ s.node.world.Draws msg
    · refine SessionStep.begins ⟨env,peerId,msg,rfl,hin.1,hin.2,rfl⟩ ?_ (hmap.trans (if_pos hin))
      rw [← hin.1]
      exact hin.2.2
    · refine SessionStep.keeps ?_ ?_ (hmap.trans (if_neg hin))
      · rintro id ⟨env',peerId',msg',he,hc,hd,-⟩
        cases he
        exact hin ⟨hc,hd⟩
      · rintro (⟨env',peerId',msg',he,hc⟩ | ⟨t,now,he,-⟩)
        · cases he
          exact hout hc
        · cases he

theorem session_visit {p : MonitorPass} (hp : s.pass = some p) (hne : p.left ≠ []) (now : ℤ) :
    SessionStep heartbeat c s (some (.visit now)) (s.next heartbeat (.visit now)) := by
  obtain ⟨e,left,hl⟩ := List.exists_cons_of_ne_nil hne
  obtain ⟨left',delList,clock⟩ := p
  dsimp only at hl
  subst hl
  have hmap := clientMap_visit heartbeat s { left := left, delList := delList, clock := clock } e now c
  have hnext : s.next heartbeat (.visit now) =
      s.visit heartbeat { left := left, delList := delList, clock := clock } e now := by
    simp only [MonitoredNode.next, hp]
  rw [hnext]
  by_cases hlate : heartbeat < now - e.2 ∧ e.1 = c
  · rw [if_pos hlate] at hmap
    refine SessionStep.ends (Or.inr ⟨e.2,now,rfl,⟨_,left,hp,?_⟩,hlate.1⟩) hmap
    rw [← hlate.2]
  · rw [if_neg hlate] at hmap
    refine SessionStep.keeps ?_ ?_ hmap
    · rintro id ⟨env,peerId,msg,he,-⟩
      cases he
    · rintro (⟨env,peerId,msg,he,-⟩ | ⟨t,now',he,⟨q,left',hq,hl⟩,hd⟩)
      · cases he
      · cases he
        rw [hp] at hq
        obtain rfl := Option.some.inj hq
        obtain ⟨rfl,-⟩ := List.cons_eq_cons.mp hl
        exact hlate ⟨hd,rfl⟩

theorem session_step (hst : MonitoredStep heartbeat s a t) : SessionStep heartbeat c s a t := by
  cases hst with
  | reorder hw hs =>
    exact session_quiet (fun _ _ _ he => by cases he) (fun _ he => by cases he) (hw.clientMap c).symm
  | @act a ha =>
    cases a with
    | request env peerId msg => exact session_request s env peerId msg
    | visit now =>
      obtain ⟨p,hp,hne⟩ := ha
      exact session_visit hp hne now
    | round =>
      apply session_quiet (fun _ _ _ he => by cases he) (fun _ he => by cases he)
      exact congrArg (AList.lookup c) (worldUpdateRound_clientMap s.context s.node.world)
    | syncWorld dto =>
      apply session_quiet (fun _ _ _ he => by cases he) (fun _ he => by cases he)
      exact congrArg (AList.lookup c) (syncFromMaster_clientMap s.node.world dto)
    | finish =>
      obtain ⟨p,hp,-⟩ := ha
      apply session_quiet (fun _ _ _ he => by cases he) (fun _ he => by cases he)
      simp only [MonitoredNode.next, hp]
      rfl
    | convertToMaster => exact session_quiet (fun _ _ _ he => by cases he) (fun _ he => by cases he) rfl
    | ping clientId now => exact session_quiet (fun _ _ _ he => by cases he) (fun _ he => by cases he) rfl
    | lock => exact session_quiet (fun _ _ _ he => by cases he) (fun _ he => by cases he) rfl

end

/-- What the monitor finds overdue is the last ping of the client. -/
theorem lastSign_of_expires {conf : GameServerConf} {past : List (MonitoredNode × Option MonitoredAct)}
    {s : MonitoredNode} (h : Run (monitoredLts conf) past s) {c : String} {t now : ℤ} {a : Option MonitoredAct}
    (he : Expires conf.basic.heartbeat c t now (s,a)) : lastSign c (pingsIn past) = some t := by
  obtain ⟨-,⟨q,left,hq,hl⟩,-⟩ := he
  have hentry := (passing_of_run h q hq).left ⟨c,t⟩ (by rw [hl]; exact List.mem_cons_self)
  have htable := congrFun (lastTime_eq_watched h) c
  exact (watched_iff.mp (htable.symm.trans hentry)).1

/-- A client is logged in under an id exactly if the last login that drew an id for it drew
this one and neither a logout nor a finding that it was overdue came after it; and the monitor
finds a client overdue only if its last ping is older than the limit. -/
theorem session_iff {conf : GameServerConf} {past : List (MonitoredNode × Option MonitoredAct)}
    {s : MonitoredNode} (h : Run (monitoredLts conf) past s) (c : String) :
    (∀ id, s.node.world.clientMap.lookup c = some id ↔ ∃ later p earlier,
      past = later ++ p :: earlier ∧ LogsIn c id p ∧
        ∀ q ∈ later, ¬ EndsSession conf.basic.heartbeat c q) ∧
    ∀ later p earlier, past = later ++ p :: earlier → ∀ t now, Expires conf.basic.heartbeat c t now p →
      lastSign c (pingsIn earlier) = some t ∧ conf.basic.heartbeat < now - t := by
  refine ⟨?_,?_⟩
  · intro id
    have hstart : ∀ s, (monitoredLts conf).init s → True ∧ s.node.world.clientMap.lookup c = none := by
      rintro s rfl
      exact ⟨trivial,rfl⟩
    refine Run.since_iff (f := fun s => s.node.world.clientMap.lookup c) hstart (fun _ _ _ _ _ => trivial)
      ?_ ?_ ?_ h
    · intro s a t id _ hst hin
      cases session_step (c := c) hst with
      | begins hin' hnone hsome => exact ⟨hnone,by rw [logsIn_unique hin hin']; exact hsome⟩
      | ends hend _ => exact absurd hend (not_endsSession_of_logsIn hin)
      | keeps hno _ _ => exact absurd hin (hno id)
    · intro s a t _ hst hend
      cases session_step (c := c) hst with
      | begins hin _ _ => exact absurd hend (not_endsSession_of_logsIn hin)
      | ends _ hnone => exact hnone
      | keeps _ hno _ => exact absurd hend hno
    · intro s a t _ hst hno hend
      cases session_step (c := c) hst with
      | begins hin _ _ => exact absurd hin (hno _)
      | ends hend' _ => exact absurd hend' hend
      | keeps _ _ hkeep => exact hkeep
  · rintro later p earlier rfl t now he
    exact ⟨lastSign_of_expires h.before he,he.2.2⟩

/-! ## A node that is pinged once -/

theorem run_monitored {conf : GameServerConf} {acts : List MonitoredAct}
    (ha : Run.Allowed (MonitoredNode.next conf.basic.heartbeat) MonitoredNode.Admissible
      (MonitoredNode.start conf) acts) : Run (monitoredLts conf)
    (Run.record (MonitoredNode.next conf.basic.heartbeat) some (MonitoredNode.start conf) acts)
    (acts.foldl (MonitoredNode.next conf.basic.heartbeat) (MonitoredNode.start conf)) :=
  Run.of_start (M := monitoredLts conf) _ _ some (fun _ _ hok => MonitoredStep.act hok) rfl ha

def pingedOnce : List MonitoredAct :=
  [.request .plain "client" (Message.login "client"),.ping "client" 1000,.lock,.visit 2000,.finish]

theorem allowed_pingedOnce : Run.Allowed (MonitoredNode.next GameServerConf.single.basic.heartbeat)
    MonitoredNode.Admissible (MonitoredNode.start .single) pingedOnce :=
  ⟨trivial,rfl,⟨rfl,rfl⟩,⟨_,rfl,by decide +kernel⟩,⟨_,rfl,rfl⟩,trivial⟩

theorem session_iff_pinged : ∃ later p earlier,
    Run.record (MonitoredNode.next GameServerConf.single.basic.heartbeat) some (MonitoredNode.start .single)
      pingedOnce = later ++ p :: earlier ∧ LogsIn "client" 2 p ∧
        ∀ q ∈ later, ¬ EndsSession GameServerConf.single.basic.heartbeat "client" q :=
  ((session_iff (run_monitored allowed_pingedOnce) "client").1 2).mp (by decide +kernel)

end GameServer.Server
