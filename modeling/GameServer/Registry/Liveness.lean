import GameServer.Library.Detector
import GameServer.Registry.Interleaving
import GameServer.Registry.Passes

/-! # The state table is a failure detector

A registration enrols its node when it inserts it, a report renews the entry, and a pass
drops whoever it has not heard of for five seconds. However the handlers interleave, the
table holds the latest report of exactly those nodes that no pass has found late since they
were registered. Reports alone never bring a node back.
-/
namespace GameServer.Registry
open Common Library Detector

/-- What the state table hears of an action. -/
def heard (s : Interleaved) : Option InterleavedAct → Option (Sign String NodeState)
  | some (.run k now) =>
    match s.tasks[k]? with
    | some { msg := msg, peerId := _, pc := .insertNode _ } => some (.enrol msg.clientId (NodeState.default now))
    | _ => none
  | some (.report clientId stateInfo _ now) =>
    some (.renew clientId { lastHeartbeatTime := now, stateInfo := stateInfo })
  | some (.pass clock) => some (.pass clock)
  | _ => none

abbrev heardIn (past : List (Interleaved × Option InterleavedAct)) : List (Sign String NodeState) :=
  signs heard past

def Interleaved.states (s : Interleaved) : String → Option NodeState := s.center.context.nodeState.lookup

theorem lookup_pass (ctx : AppContext) (clock : String → ℤ) (k : String) :
    (ctx.nodeState.eraseAll (ctx.delList clock)).lookup k = (ctx.nodeState.lookup k).filter
      (fun state => decide (clock k - state.lastHeartbeatTime ≤ 5000)) := by
  cases hk : ctx.nodeState.lookup k with
  | none =>
    rw [AList.lookup_eraseAll, hk]
    split <;> rfl
  | some state =>
    by_cases hlate : clock k - state.lastHeartbeatTime > 5000
    · rw [(lookup_eraseAll_of_silent ctx.nodeState k).1 ⟨state,hk,hlate⟩]
      symm
      apply Option.filter_some_neg
      exact decide_eq_false (Int.not_le.mpr hlate)
    · have hsilent : ¬ ctx.Silent clock k := by
        rintro ⟨state',hk',hlate'⟩
        rw [hk] at hk'
        obtain rfl := Option.some.inj hk'
        exact hlate hlate'
      rw [(lookup_eraseAll_of_silent ctx.nodeState k).2 hsilent, hk]
      symm
      apply Option.filter_some_pos
      exact decide_eq_true (Int.not_lt.mp hlate)

theorem states_run (s : Interleaved) (k : ℕ) (now : ℤ) : (s.run k now).states =
    hearStep NodeState.lastHeartbeatTime 5000 s.states (heard s (some (.run k now))) := by
  cases hk : s.tasks[k]? with
  | none => simp only [Interleaved.run, heard, hk, hearStep]
  | some t =>
    have hcenter : (s.run k now).center = (t.locked now s.center).1 := by simp only [Interleaved.run, hk]
    have hquiet : (∀ nodeInfo, t.pc ≠ .insertNode nodeInfo) → heard s (some (.run k now)) = none := by
      intro hpc
      simp only [heard, hk]
      split
      · rename_i heq
        obtain rfl := Option.some.inj heq
        exact absurd rfl (hpc _)
      · rfl
    unfold Interleaved.states
    rw [hcenter]
    cases lockedEffect now s.center t with
    | checks hctx hans =>
      rw [hctx, hquiet]
      · rfl
      · intro nodeInfo hp
        simp [RegisterTask.answers, hp] at hans
    | records nodeInfo hp hc _ =>
      rw [hc, hquiet]
      · rfl
      · simp [hp]
    | inserts nodeInfo hp hctx _ =>
      obtain ⟨msg,peerId,pc⟩ := t
      dsimp only at hp
      subst hp
      rw [hctx]
      funext key
      simp only [Center.insertNode, AList.lookup_insert_eq, heard, hk, hearStep, hear]

theorem states_step {s t : Interleaved} {a : Option InterleavedAct} (hst : InterleavedStep s a t) :
    t.states = hearStep NodeState.lastHeartbeatTime 5000 s.states (heard s a) := by
  cases hst with
  | reorder hs =>
    funext k
    exact (hs.nodeState k).symm
  | @act a ha =>
    cases a with
    | arrive nodeInfo nodeType peerId => rfl
    | run k now => exact states_run s k now
    | report clientId stateInfo peerId now =>
      funext k
      simp only [Interleaved.next, Interleaved.states, handleReport_eq, Outcome.ok_state, AList.lookup_adjust]
      rfl
    | convertToMasterResp nodeInfo peerId now => rfl
    | pass clock =>
      funext k
      simp only [Interleaved.next, Interleaved.states, heartbeatMonitor_context]
      exact lookup_pass s.center.context clock k

/-- The table of a run is that of a detector which heard its registrations, reports and passes. -/
theorem states_eq_watched {past : List (Interleaved × Option InterleavedAct)} {s : Interleaved}
    (h : Run interleavedLts past s) :
    s.states = watched NodeState.lastHeartbeatTime 5000 (heardIn past) := by
  apply table_eq_watched (I := fun _ => True) _ _ h
  · rintro s rfl
    exact ⟨trivial,rfl⟩
  · exact fun s a t _ hst => ⟨trivial,states_step hst⟩

/-- A node has an entry exactly if it was registered and every pass since then found its
latest sign of life at most five seconds old; the entry is that sign of life, and so holds
the load the node reported last. -/
theorem watched_nodes {past : List (Interleaved × Option InterleavedAct)} {s : Interleaved}
    (h : Run interleavedLts past s) (k : String) (state : NodeState) :
    s.center.context.nodeState.lookup k = some state ↔
      lastSign k (heardIn past) = some state ∧
        InTime NodeState.lastHeartbeatTime 5000 k (heardIn past) := by
  have hk : s.center.context.nodeState.lookup k =
      watched NodeState.lastHeartbeatTime 5000 (heardIn past) k := congrFun (states_eq_watched h) k
  rw [hk]
  exact watched_iff

def reported : List InterleavedAct :=
  let master := Server.GameServerConf.master.node
  [.arrive master .Master "master",.run 0 0,.run 0 0,.run 0 0,.run 0 0,
    .report master.getKey StateInfo.default "master" 4000,.pass (fun _ => 9000)]

theorem watched_nodes_reported :
    ∃ state, lastSign Server.GameServerConf.master.node.getKey
        (heardIn (Run.record Interleaved.next some Interleaved.start reported)) = some state ∧
      InTime NodeState.lastHeartbeatTime 5000 Server.GameServerConf.master.node.getKey
        (heardIn (Run.record Interleaved.next some Interleaved.start reported)) := by
  have hsome : ((reported.foldl Interleaved.next Interleaved.start).center.context.nodeState.lookup
      Server.GameServerConf.master.node.getKey).isSome = true := by decide +kernel
  obtain ⟨state,hstate⟩ := Option.isSome_iff_exists.mp hsome
  exact ⟨state,(watched_nodes (run_interleaved reported (by decide +kernel)) _ state).mp hstate⟩

end GameServer.Registry
