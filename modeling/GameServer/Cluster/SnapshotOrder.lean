import GameServer.Library.Pool
import GameServer.Server.MainHandle
import Mathlib.Tactic.Tauto

/-! # The order in which a slave applies snapshots

The master hands the maps of every tick to a task of their own, and the slave starts
a task for every message. What lies between the two pools keeps its order. A snapshot
can therefore come out before an older one only if a task ran before an older one
that was waiting in the same pool.
-/
namespace GameServer.Cluster
open Common Library Server

/-- A `sync_world_users_task` that has not run; the tick is not part of its data. -/
structure SyncTask where
  tick : ℕ
  maps : Maps

/-- A published snapshot; the tick is not part of its data. -/
structure Published where
  tick : ℕ
  dto : WorldSyncDTO

structure SyncState where
  master : World
  slave : World
  emitted : List Maps
  senders : List SyncTask
  wire : List Published
  appliers : List Published
  applied : List ℕ

inductive SyncAct
  | request (env : Surroundings) (peerId : PeerIdentity) (msg : Message)
  | tick
  | publish (k : ℕ) (millis : ℤ)
  | deliver
  | apply (k : ℕ)

namespace SyncState

def start (masterConf slaveConf : GameServerConf) : SyncState where
  master := World.init masterConf
  slave := World.init slaveConf
  emitted := []
  senders := []
  wire := []
  appliers := []
  applied := []

/-- One round of `world_update_thread` on the master; a panic ends it before the maps are
handed on. -/
def tick (s : SyncState) (ctx : ServerContext) : SyncState :=
  let updated := worldUpdateRound ctx s.master
  match updated.panic with
  | some _ => { s with master := updated.state }
  | none =>
    { s with
      master := updated.state
      emitted := s.emitted ++ [updated.state.maps]
      senders := s.senders ++ [{ tick := s.emitted.length, maps := updated.state.maps }] }

def syncWorldUsersTask (task : SyncTask) (millis : ℤ) : Published where
  tick := task.tick
  dto := { WorldSyncDTO.fromMaps task.maps with timestamp := some millis }

def next (ctx : ServerContext) (s : SyncState) : SyncAct → SyncState
  | .request env peerId msg => { s with master := (handleMsgTask env ctx s.master peerId msg).world }
  | .tick => s.tick ctx
  | .publish k millis =>
    match s.senders[k]? with
    | none => s
    | some task =>
      { s with
        senders := s.senders.eraseIdx k
        wire := s.wire ++ [syncWorldUsersTask task millis] }
  | .deliver =>
    match s.wire with
    | [] => s
    | snapshot :: wire => { s with wire := wire, appliers := s.appliers ++ [snapshot] }
  | .apply k =>
    -- `slave_sync_world_task` does not look at the timestamp
    match s.appliers[k]? with
    | none => s
    | some snapshot =>
      { s with
        slave := (s.slave.syncFromMaster snapshot.dto).state
        appliers := s.appliers.eraseIdx k
        applied := s.applied ++ [snapshot.tick] }

/-- The ticks of all snapshots, from the first applied to the last emitted. -/
def line (s : SyncState) : List ℕ :=
  s.applied ++ (s.appliers.map Published.tick ++ (s.wire.map Published.tick ++ s.senders.map SyncTask.tick))

/-- The task of tick `b` runs while the task of tick `a` waits in the same pool. -/
def Overtakes (s : SyncState) (b a : ℕ) : SyncAct → Prop
  | .publish k _ => (s.senders[k]?).map SyncTask.tick = some b ∧ a ∈ s.senders.map SyncTask.tick
  | .apply k => (s.appliers[k]?).map Published.tick = some b ∧ a ∈ s.appliers.map Published.tick
  | _ => False

end SyncState

/-- A master of a cluster and a slave that subscribed to it before its first snapshot. -/
def syncLts (masterConf slaveConf : GameServerConf) : Lts SyncState SyncAct where
  init s := masterConf.node.nodeType = .Master ∧ masterConf.app.mode = .Cluster ∧
    slaveConf.node.nodeType = .Slave ∧ s = SyncState.start masterConf slaveConf
  step s a t := t = s.next (ServerContext.run masterConf) a

/-! ## What each step does to the line -/

section
variable {s : SyncState} {a b : ℕ}

theorem tick_line (s : SyncState) (ctx : ServerContext) :
    ((s.tick ctx).line = s.line ∧ (s.tick ctx).emitted = s.emitted) ∨
    ((s.tick ctx).line = s.line ++ [s.emitted.length] ∧
      (s.tick ctx).emitted.length = s.emitted.length + 1) := by
  unfold SyncState.tick
  dsimp only
  split
  · exact Or.inl ⟨rfl,rfl⟩
  · right
    simp [SyncState.line]

theorem publish_line {k : ℕ} {task : SyncTask} (millis : ℤ) (ctx : ServerContext)
    (hk : s.senders[k]? = some task) :
    Pool.Advance (s.senders.map SyncTask.tick) task.tick s.line (s.next ctx (.publish k millis)).line := by
  obtain ⟨before,after,hs,he⟩ := Pool.split_eraseIdx hk
  refine ⟨s.applied ++ (s.appliers.map Published.tick ++ s.wire.map Published.tick),
    before.map SyncTask.tick,after.map SyncTask.tick,?_,?_,?_⟩
  · simp [SyncState.line, hs]
  · simp [SyncState.next, SyncState.line, hk, he, SyncState.syncWorldUsersTask]
  · rw [hs, List.map_append]
    exact List.subset_append_left _ _

theorem apply_line {k : ℕ} {snapshot : Published} (ctx : ServerContext)
    (hk : s.appliers[k]? = some snapshot) :
    Pool.Advance (s.appliers.map Published.tick) snapshot.tick s.line (s.next ctx (.apply k)).line := by
  obtain ⟨before,after,hs,he⟩ := Pool.split_eraseIdx hk
  refine ⟨s.applied,before.map Published.tick,
    after.map Published.tick ++ (s.wire.map Published.tick ++ s.senders.map SyncTask.tick),?_,?_,?_⟩
  · simp [SyncState.line, hs]
  · simp [SyncState.next, SyncState.line, hk, he]
  · rw [hs, List.map_append]
    exact List.subset_append_left _ _

/-- What a step does to the line: nothing, a new tick at its end, or a task that runs moves
ahead of those that wait in its pool. -/
inductive LineEffect (s t : SyncState) (act : SyncAct) : Prop
  | same : t.line = s.line → t.emitted.length = s.emitted.length → LineEffect s t act
  | emits : t.line = s.line ++ [s.emitted.length] → t.emitted.length = s.emitted.length + 1 →
      LineEffect s t act
  | runs {pool : List ℕ} {x : ℕ} : Pool.Advance pool x s.line t.line →
      t.emitted.length = s.emitted.length → (∀ a, a ∈ pool → s.Overtakes x a act) → LineEffect s t act

theorem lineEffect (s : SyncState) (ctx : ServerContext) (act : SyncAct) :
    LineEffect s (s.next ctx act) act := by
  cases act with
  | request env peerId msg => exact LineEffect.same rfl rfl
  | tick =>
    obtain ⟨hl,he⟩ | ⟨hl,he⟩ := tick_line s ctx
    · exact LineEffect.same hl (congrArg List.length he)
    · exact LineEffect.emits hl he
  | publish k millis =>
    cases hk : s.senders[k]? with
    | none => exact LineEffect.same (by simp only [SyncState.next, hk]) (by simp only [SyncState.next, hk])
    | some task =>
      refine LineEffect.runs (publish_line millis ctx hk) (by simp only [SyncState.next, hk]) ?_
      exact fun a ha => ⟨by rw [hk]; rfl,ha⟩
  | deliver =>
    cases hw : s.wire with
    | nil => exact LineEffect.same (by simp only [SyncState.next, hw]) (by simp only [SyncState.next, hw])
    | cons snapshot wire =>
      exact LineEffect.same (by simp [SyncState.next, SyncState.line, hw]) (by simp only [SyncState.next, hw])
  | apply k =>
    cases hk : s.appliers[k]? with
    | none => exact LineEffect.same (by simp only [SyncState.next, hk]) (by simp only [SyncState.next, hk])
    | some snapshot =>
      refine LineEffect.runs (apply_line ctx hk) (by simp only [SyncState.next, hk]) ?_
      exact fun a ha => ⟨by rw [hk]; rfl,ha⟩

/-- Every emitted snapshot stands in the line once. -/
def SyncState.Complete (s : SyncState) : Prop := s.line.Perm (List.range s.emitted.length)

theorem complete_next (h : s.Complete) (ctx : ServerContext) (act : SyncAct) :
    (s.next ctx act).Complete := by
  unfold SyncState.Complete
  cases lineEffect s ctx act with
  | same hl he =>
    rw [hl, he]
    exact h
  | emits hl he =>
    rw [hl, he, List.range_succ]
    exact h.append_right _
  | runs hadv he _ =>
    rw [he]
    exact hadv.perm.trans h

/-- A pair of ticks that stands in order stays so unless the later one overtakes. -/
theorem order_next (h : s.Complete) (hab : a < b) (ho : ¬ [b,a].Sublist s.line) {act : SyncAct}
    (hn : ¬ s.Overtakes b a act) (ctx : ServerContext) : ¬ [b,a].Sublist (s.next ctx act).line := by
  cases lineEffect s ctx act with
  | same hl _ =>
    rw [hl]
    exact ho
  | emits hl _ =>
    rw [hl]
    intro hs
    obtain ⟨l₁,l₂,he,h₁,h₂⟩ := List.sublist_append_iff.mp hs
    -- the new tick is the last one, so it cannot be the smaller of the two
    rcases l₁ with - | ⟨c,- | ⟨d,l₁⟩⟩
    · have hlen := h₂.length_le
      rw [← List.nil_append l₂, ← he] at hlen
      simp at hlen
    · obtain ⟨rfl,rfl⟩ : b = c ∧ [a] = l₂ := by simpa using he
      have hbn : b < s.emitted.length :=
        List.mem_range.mp (h.mem_iff.mp (List.singleton_sublist.mp h₁))
      have han : a = s.emitted.length := by simpa using h₂
      omega
    · obtain ⟨rfl,rfl,rfl,-⟩ : b = c ∧ a = d ∧ l₁ = [] ∧ l₂ = [] := by simpa using he
      exact ho h₁
  | runs hadv _ hover =>
    apply hadv.order ho
    rintro ⟨rfl,ha⟩
    exact hn (hover a ha)

end

/-! ## Whole runs -/

section
variable {masterConf slaveConf : GameServerConf} {past : List (SyncState × SyncAct)} {s : SyncState}

theorem complete_run (h : Run (syncLts masterConf slaveConf) past s) : s.Complete := by
  apply h.invariant
  · rintro s ⟨-,-,-,rfl⟩
    exact List.Perm.refl []
  · rintro s a t hs rfl
    exact complete_next hs _ a

theorem order_run (h : Run (syncLts masterConf slaveConf) past s) {a b : ℕ} (hab : a < b)
    (hn : ∀ p ∈ past, ¬ p.1.Overtakes b a p.2) : ¬ [b,a].Sublist s.line := by
  have hinv : s.Complete ∧ ¬ [b,a].Sublist s.line := by
    apply h.invariant_of (I := fun s => s.Complete ∧ ¬ [b,a].Sublist s.line)
      (C := fun s act => ¬ s.Overtakes b a act) _ _ hn
    · rintro s ⟨-,-,-,rfl⟩
      exact ⟨List.Perm.refl [],fun hs => by simp [SyncState.line, SyncState.start] at hs⟩
    · rintro s act t ⟨hc,ho⟩ hno rfl
      exact ⟨complete_next hc _ act,order_next hc hab ho hno _⟩
  exact hinv.2

theorem applied_sublist_line (s : SyncState) : s.applied.Sublist s.line := List.sublist_append_left _ _

theorem applied_increasing (h : Run (syncLts masterConf slaveConf) past s)
    (hn : ∀ p ∈ past, ∀ a b, a < b → ¬ p.1.Overtakes b a p.2) : s.applied.Pairwise (· < ·) := by
  have hnodup : s.line.Nodup := (complete_run h).nodup_iff.mpr List.nodup_range
  apply List.pairwise_iff_forall_sublist.mpr
  intro b a hs
  have hline := hs.trans (applied_sublist_line s)
  rcases lt_trichotomy b a with hlt | rfl | hgt
  · exact hlt
  · have hne := hnodup.sublist hline
    simp at hne
  · exact absurd hline (order_run h hgt (fun p hp => hn p hp a b hgt))

/-- The slave applies what was emitted, each snapshot once at most, and an older one after a
newer one only if the newer one's task has overtaken the older one's. -/
theorem older_after_newer_overtaken (h : Run (syncLts masterConf slaveConf) past s) :
    s.applied.Nodup ∧ (∀ n ∈ s.applied, n < s.emitted.length) ∧
    ∀ a b, a < b → [b,a].Sublist s.applied → ∃ p ∈ past, p.1.Overtakes b a p.2 := by
  have hc := complete_run h
  refine ⟨?_,?_,?_⟩
  · exact (hc.nodup_iff.mpr List.nodup_range).sublist (applied_sublist_line s)
  · intro n hn
    exact List.mem_range.mp (hc.mem_iff.mp ((applied_sublist_line s).subset hn))
  · intro a b hab hs
    by_contra hno
    apply order_run h hab _ (hs.trans (applied_sublist_line s))
    intro p hp ho
    exact hno ⟨p,hp,ho⟩

/-! ## What the slave holds -/

/-- The maps emitted at a tick are what the snapshot of that tick carries. -/
structure SyncState.Carried (s : SyncState) : Prop where
  master : s.master.OnGrid
  slave : s.slave.OnGrid
  layout : ∀ maps ∈ s.emitted, Layout maps
  senders : ∀ task ∈ s.senders, s.emitted[task.tick]? = some task.maps
  sent : ∀ snapshot ∈ s.wire ++ s.appliers, ∃ maps, s.emitted[snapshot.tick]? = some maps ∧
    (WorldSyncDTO.fromMaps maps).SameData snapshot.dto
  last : ∀ n, s.applied.getLast? = some n → ∃ maps, s.emitted[n]? = some maps ∧ SameScenes maps s.slave.maps

/-- A tick adds its maps at the end of what was emitted, and one task that carries them. -/
theorem SyncState.Carried.emit (h : s.Carried) {master : World} (hg : master.OnGrid) :
    SyncState.Carried { s with
      master := master
      emitted := s.emitted ++ [master.maps]
      senders := s.senders ++ [{ tick := s.emitted.length, maps := master.maps }] } := by
  have hkeep : ∀ (maps : Maps) (n : ℕ), s.emitted[n]? = some maps →
      (s.emitted ++ [master.maps])[n]? = some maps := by
    intro maps n hn
    rw [List.getElem?_append_left (List.getElem?_eq_some_iff.mp hn).1]
    exact hn
  refine ⟨hg,h.slave,?_,?_,?_,?_⟩
  · intro maps hmaps
    rcases List.mem_append.mp hmaps with hold | hnew
    · exact h.layout maps hold
    · rw [List.mem_singleton.mp hnew]
      exact hg.layout
  · intro task ht
    rcases List.mem_append.mp ht with hold | hnew
    · exact hkeep _ _ (h.senders task hold)
    · rw [List.mem_singleton.mp hnew]
      exact List.getElem?_concat_length
  · intro snapshot hs
    obtain ⟨maps,hmaps,hd⟩ := h.sent snapshot hs
    exact ⟨maps,hkeep _ _ hmaps,hd⟩
  · intro n hn
    obtain ⟨maps,hmaps,hd⟩ := h.last n hn
    exact ⟨maps,hkeep _ _ hmaps,hd⟩

theorem carried_next (h : s.Carried) {ctx : ServerContext} (hm : ctx.nodeType = .Master) (act : SyncAct) :
    (s.next ctx act).Carried := by
  cases act with
  | request env peerId msg =>
    refine ⟨?_,h.slave,h.layout,h.senders,h.sent,h.last⟩
    simp only [SyncState.next, handleMsgTask_world hm]
    exact onGrid_apply h.master _
  | tick =>
    have hg := onGrid_worldUpdateRound h.master ctx
    simp only [SyncState.next, SyncState.tick]
    split
    · exact ⟨hg,h.slave,h.layout,h.senders,h.sent,h.last⟩
    · exact h.emit hg
  | publish k millis =>
    simp only [SyncState.next]
    split
    · exact h
    · rename_i task hk
      refine ⟨h.master,h.slave,h.layout,?_,?_,h.last⟩
      · intro task ht
        exact h.senders task (List.mem_of_mem_eraseIdx ht)
      · intro snapshot hs
        simp only [List.mem_append, List.mem_singleton] at hs
        rcases hs with (hs | rfl) | hs
        · exact h.sent snapshot (List.mem_append_left _ hs)
        · exact ⟨task.maps,h.senders task (List.mem_of_getElem? hk),
            WorldSyncDTO.SameData.refl (WorldSyncDTO.fromMaps task.maps)⟩
        · exact h.sent snapshot (List.mem_append_right _ hs)
  | deliver =>
    simp only [SyncState.next]
    split
    · exact h
    · rename_i snapshot wire hw
      refine ⟨h.master,h.slave,h.layout,h.senders,?_,h.last⟩
      intro x hx
      apply h.sent x
      simp only [hw, List.mem_append, List.mem_cons, List.not_mem_nil] at hx ⊢
      tauto
  | apply k =>
    simp only [SyncState.next]
    split
    · exact h
    · rename_i snapshot hk
      refine ⟨h.master,h.slave.syncFromMaster _,h.layout,h.senders,?_,?_⟩
      · intro x hx
        apply h.sent x
        rcases List.mem_append.mp hx with hx | hx
        · exact List.mem_append_left _ hx
        · exact List.mem_append_right _ (List.mem_of_mem_eraseIdx hx)
      · intro n hn
        obtain rfl : snapshot.tick = n := by simpa using hn
        obtain ⟨maps,hmaps,hd⟩ := h.sent snapshot (List.mem_append_right _ (List.mem_of_getElem? hk))
        exact ⟨maps,hmaps,(syncFromMaster_eq (h.layout maps (List.mem_of_getElem? hmaps)) h.slave hd).2⟩

/-- The slave holds the users the master held at the tick applied last. -/
theorem slave_holds_last_applied (h : Run (syncLts masterConf slaveConf) past s) {n : ℕ}
    (hn : s.applied.getLast? = some n) : ∃ maps, s.emitted[n]? = some maps ∧
      ∀ tag id, userAt s.slave.maps tag id = userAt maps tag id := by
  have hc : s.Carried := by
    have hboth : masterConf.node.nodeType = .Master ∧ s.Carried := by
      apply h.invariant (I := fun s => masterConf.node.nodeType = .Master ∧ s.Carried)
      · rintro s ⟨hm,-,-,rfl⟩
        refine ⟨hm,⟨rfl,layout_init _⟩,⟨rfl,layout_init _⟩,?_,?_,?_,?_⟩
        · exact fun maps hmaps => by cases hmaps
        · exact fun task ht => by cases ht
        · exact fun snapshot hs => by cases hs
        · exact fun n hn => by cases hn
      · rintro s act t ⟨hm,hc⟩ rfl
        exact ⟨hm,carried_next hc hm act⟩
    exact hboth.2
  obtain ⟨maps,hmaps,hsame⟩ := hc.last n hn
  exact ⟨maps,hmaps,hsame.userAt_eq⟩

/-! ## A slave that goes back in time -/

def reversedActs : List SyncAct :=
  [.tick,.tick,.publish 0 0,.publish 0 20,.deliver,.deliver,.apply 1,.apply 0]

theorem applied_reversedActs {ctx : ServerContext} (hm : ctx.nodeType = .Master)
    (masterConf slaveConf : GameServerConf) :
    (reversedActs.foldl (SyncState.next ctx) (SyncState.start masterConf slaveConf)).applied = [1,0] := by
  have hv := valid_init masterConf
  have h₁ : (worldUpdateRound ctx (World.init masterConf)).panic = none := by
    rw [worldUpdateRound_of_master hm, hv.update_eq]
    rfl
  have h₂ : (worldUpdateRound ctx (worldUpdateRound ctx (World.init masterConf)).state).panic = none := by
    rw [worldUpdateRound_of_master hm, worldUpdateRound_of_master hm, (valid_update hv).update_eq]
    rfl
  simp [reversedActs, SyncState.next, SyncState.tick, SyncState.start, h₁, h₂, SyncState.syncWorldUsersTask]

end

def reversed : SyncState :=
  reversedActs.foldl (SyncState.next (ServerContext.run .master)) (SyncState.start .master .slave)

theorem run_reversed : ∃ past, Run (syncLts .master .slave) past reversed := by
  have h₀ : (syncLts .master .slave).init (SyncState.start .master .slave) := ⟨rfl,rfl,rfl,rfl⟩
  exact ⟨_,Run.of_start (SyncState.next (ServerContext.run .master)) (fun _ _ => True) id
    (fun _ _ _ => rfl) h₀ (Run.allowed_of_forall (fun _ _ => trivial) _ _)⟩

theorem applied_reversed : reversed.applied = [1,0] := applied_reversedActs rfl .master .slave

theorem older_after_newer_overtaken_reversed :
    ∃ past, Run (syncLts .master .slave) past reversed ∧ ∃ p ∈ past, p.1.Overtakes 1 0 p.2 := by
  obtain ⟨past,h⟩ := run_reversed
  refine ⟨past,h,(older_after_newer_overtaken h).2.2 0 1 Nat.zero_lt_one ?_⟩
  rw [applied_reversed]

theorem slave_goes_back_in_time :
    ∃ past s, Run (syncLts .master .slave) past s ∧ ¬ s.applied.Pairwise (· ≤ ·) := by
  obtain ⟨past,h⟩ := run_reversed
  refine ⟨past,reversed,h,?_⟩
  rw [applied_reversed]
  decide

end GameServer.Cluster
