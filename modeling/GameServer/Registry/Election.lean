import GameServer.Registry.Tables

/-! # An election is under way

As long as answers come in time and a commanded node lives until it has answered, a
cluster without a recorded master has a commanded node that can still answer. The
monitor compares expired nodes with the recorded master only: when the commanded node
itself falls silent, nobody is commanded in its place.
-/
namespace GameServer.Registry
open Common Library

/-- An answer is handled while its sender is in the state table, and a pass without a
recorded master times a node that owes an answer out only if it leaves another such
node, or no node at all. -/
def RegistryState.Attended (s : RegistryState) : Option RegistryAct → Prop
  | some (.convertToMasterResp nodeInfo _ _) => nodeInfo.getKey ∈ s.center.context.nodeState
  | some (.pass clock) => s.center.context.masterNode = none →
      ∀ k ∈ s.pending, k ∈ s.center.context.nodeState → k ∈ s.center.context.delList clock →
      (∃ k ∈ s.pending, k ∈ s.center.context.nodeState ∧ k ∉ s.center.context.delList clock) ∨
      ∀ k ∈ s.center.context.nodeState.keys, k ∈ s.center.context.delList clock
  | _ => True

/-- The tables agree, and a list without a recorded master holds a commanded node. -/
structure RegistryState.Watched (s : RegistryState) : Prop where
  tables : s.center.context.Tables
  keyed : Keyed s.center.context.nodeList
  candidate : s.center.context.masterNode = none → (∃ k, k ∈ s.center.context.nodeList) →
    ∃ k ∈ s.pending, k ∈ s.center.context.nodeList
  monitoring : s.monitoring = true

namespace RegistryState.Watched
variable {s : RegistryState}

theorem start : RegistryState.start.Watched where
  tables := ⟨fun _ => Iff.rfl,fun k hk => absurd hk (AList.notMem_empty k),fun m hm => by cases hm⟩
  keyed k n hn := by cases hn
  candidate _ hne := by
    obtain ⟨k,hk⟩ := hne
    exact absurd hk (AList.notMem_empty k)
  monitoring := rfl

theorem reorder (h : s.Watched) {ctx : AppContext} (hs : s.center.context.Same ctx) :
    RegistryState.Watched { s with center := { s.center with context := ctx } } where
  tables := tables_same h.tables hs
  keyed k n hn := h.keyed k n ((hs.nodeList k).trans hn)
  candidate hm hne := by
    obtain ⟨k,hk⟩ := hne
    have hm' : s.center.context.masterNode = none := by
      rw [← hs.masterNode]
      exact hm
    obtain ⟨k',hp,hk'⟩ := h.candidate hm' ⟨k,(hs.nodeList.mem_iff k).mp hk⟩
    exact ⟨k',hp,(hs.nodeList.mem_iff k').mpr hk'⟩
  monitoring := h.monitoring

theorem register (h : s.Watched) {c' : Center} {now : ℤ} {nodeInfo : NodeInfo} {peerId : PeerIdentity}
    (he : RegisterEffect now nodeInfo peerId s.center c') :
    RegistryState.Watched { s with center := c' } := by
  have ht := tables_register h.tables he
  cases he with
  | refused reason => exact ⟨ht,h.keyed,h.candidate,h.monitoring⟩
  | master hnot htype hm =>
    refine ⟨ht,keyed_insert h.keyed nodeInfo,?_,h.monitoring⟩
    intro hm' _
    cases hm'
  | slave hnot htype hm =>
    refine ⟨ht,keyed_insert h.keyed nodeInfo,?_,h.monitoring⟩
    intro hm' _
    exact absurd hm' hm

theorem convertToMasterResp (h : s.Watched) {nodeInfo : NodeInfo}
    (hin : nodeInfo.getKey ∈ s.center.context.nodeState) (peerId : PeerIdentity) (now : ℤ) :
    (s.next (.convertToMasterResp nodeInfo peerId now)).Watched := by
  refine ⟨tables_convertToMasterResp h.tables hin now peerId,keyed_insert h.keyed nodeInfo,?_,h.monitoring⟩
  intro hm _
  cases hm

theorem pass_of_need (h : s.Watched) {clock : String → ℤ}
    (hneed : s.center.context.needElectMaster clock = true) : (s.next (.pass clock)).Watched := by
  have htables := tables_pass h.tables clock
  have hctx := heartbeatMonitor_context clock s.center
  obtain ⟨c,hpass,hsent⟩ := heartbeatMonitor_of_need hneed
  rw [hpass, electMaster_context] at hctx htables
  have hkeyed : Keyed c.context.nodeList := by
    rw [hctx]
    exact keyed_eraseAll h.keyed _
  have helect : (electMaster c).panic = none ∧ ((∃ k, k ∈ c.context.nodeList) →
      ∃ k ∈ newCommands s.center (electMaster c).state, k ∈ c.context.nodeList) := by
    by_cases hne : ∃ k, k ∈ c.context.nodeList
    · obtain ⟨k,hk⟩ := hne
      obtain ⟨hp,k',hk',hcmd⟩ := electMaster_elects htables.keys htables.peers hkeyed hk
      refine ⟨hp,fun _ => ⟨k',?_,hk'⟩⟩
      rw [newCommands, hcmd, hsent, List.drop_left]
      exact List.mem_singleton_self k'
    · rw [electMaster_of_empty (fun k hk => hne ⟨k,hk⟩)]
      exact ⟨rfl,fun h => absurd h hne⟩
  refine ⟨?_,?_,?_,?_⟩
  · simp only [RegistryState.next, hpass, electMaster_context]
    exact htables
  · simp only [RegistryState.next, hpass, electMaster_context]
    exact hkeyed
  · simp only [RegistryState.next, hpass, electMaster_context]
    intro _ hne
    obtain ⟨k,hk,hin⟩ := helect.2 hne
    exact ⟨k,List.mem_append_right _ hk,hin⟩
  · simp only [RegistryState.next, hpass, helect.1]
    rfl

theorem pass (h : s.Watched) {clock : String → ℤ} (hatt : s.Attended (some (.pass clock))) :
    (s.next (.pass clock)).Watched := by
  cases hneed : s.center.context.needElectMaster clock with
  | true => exact h.pass_of_need hneed
  | false =>
    have hctx := heartbeatMonitor_context clock s.center
    obtain ⟨hp,hsent⟩ := heartbeatMonitor_of_not_need hneed
    have hnew : newCommands s.center (heartbeatMonitor clock s.center).state = [] := by
      rw [newCommands, hsent, List.drop_length]
    refine ⟨tables_pass h.tables clock,?_,?_,?_⟩
    · intro k n hn
      simp only [RegistryState.next, hctx] at hn
      exact keyed_eraseAll h.keyed _ k n hn
    · intro hm hne
      simp only [RegistryState.next, hctx, hneed, hnew, List.append_nil] at hm hne ⊢
      obtain ⟨k,hk⟩ := hne
      obtain ⟨hk,halive⟩ := AList.mem_eraseAll.mp hk
      have hm' : s.center.context.masterNode = none := by simpa using hm
      obtain ⟨k₁,hp₁,hk₁⟩ := h.candidate hm' ⟨k,hk⟩
      have hkept : ∀ k' ∈ s.pending, k' ∉ s.center.context.delList clock →
          k' ∈ s.pending.filter (fun k => decide (k ∉ s.center.context.delList clock)) :=
        fun k' hp' halive' => List.mem_filter.mpr ⟨hp',decide_eq_true halive'⟩
      by_cases hdel : k₁ ∈ s.center.context.delList clock
      · rcases hatt hm' k₁ hp₁ ((h.tables.keys k₁).mp hk₁) hdel with ⟨k₂,hp₂,hk₂,halive₂⟩ | hall
        · exact ⟨k₂,hkept k₂ hp₂ halive₂,AList.mem_eraseAll.mpr ⟨(h.tables.keys k₂).mpr hk₂,halive₂⟩⟩
        · exact absurd (hall k (AList.mem_keys.mp ((h.tables.keys k).mp hk))) halive
      · exact ⟨k₁,hkept k₁ hp₁ hdel,AList.mem_eraseAll.mpr ⟨hk₁,hdel⟩⟩
    · simp only [RegistryState.next, hp]
      rfl

theorem step (h : s.Watched) {t : RegistryState} {a : Option RegistryAct} (hatt : s.Attended a)
    (hst : RegistryStep s a t) : t.Watched := by
  cases hst with
  | reorder hs => exact h.reorder hs
  | @act a ha =>
    cases a with
    | register nodeInfo nodeType peerId now =>
      obtain ⟨c',he,heff⟩ := registerEffect now nodeInfo nodeType peerId s.center
      simp only [RegistryState.next, he, Outcome.ok_state]
      exact h.register heff
    | report clientId stateInfo peerId now =>
      exact ⟨tables_report h.tables now clientId stateInfo peerId,h.keyed,h.candidate,h.monitoring⟩
    | convertToMasterResp nodeInfo peerId now => exact h.convertToMasterResp hatt peerId now
    | pass clock => exact h.pass hatt

end RegistryState.Watched

instance (s : RegistryState) (a : Option RegistryAct) : Decidable (s.Attended a) :=
  match a with
  | some (.convertToMasterResp nodeInfo _ _) =>
    inferInstanceAs (Decidable (nodeInfo.getKey ∈ s.center.context.nodeState))
  | some (.pass clock) =>
    inferInstanceAs (Decidable (s.center.context.masterNode = none →
      ∀ k ∈ s.pending, k ∈ s.center.context.nodeState → k ∈ s.center.context.delList clock →
      (∃ k ∈ s.pending, k ∈ s.center.context.nodeState ∧ k ∉ s.center.context.delList clock) ∨
      ∀ k ∈ s.center.context.nodeState.keys, k ∈ s.center.context.delList clock))
  | some (.register _ _ _ _) => isTrue trivial
  | some (.report _ _ _ _) => isTrue trivial
  | none => isTrue trivial

end GameServer.Registry
