import Mathlib.Data.Fintype.Basic
import GameServer.Cluster.Fleet

/-! # One master at a time

The registry grants mastership when it records a node that registers as master and when it
commands an elected one. As long as whoever was granted it before has stopped, at most one
running process acts as master; otherwise two do, once the messages under way arrive.
-/
namespace GameServer.Cluster
open Common Library Server Registry

/-! ## Who is granted mastership -/

/-- The task has recorded its node as the master. -/
def RegisterTask.Recorded (t : RegisterTask) : Prop :=
  match t.pc with
  | .insertNode nodeInfo => nodeInfo.nodeType = .Master
  | _ => False

theorem recorded_iff {t : RegisterTask} :
    RegisterTask.Recorded t ↔ ∃ nodeInfo, t.pc = .insertNode nodeInfo ∧ nodeInfo.nodeType = .Master := by
  unfold RegisterTask.Recorded
  cases t.pc with
  | insertNode nodeInfo => simp
  | _ => simp

theorem run_insert {r : Interleaved} {k : ℕ} {t : RegisterTask} {nodeInfo : NodeInfo} {now : ℤ}
    (hk : r.tasks[k]? = some t) (hp : t.pc = .insertNode nodeInfo) : (r.run k now).center.sent =
      r.center.sent ++ [(t.peerId,Message.registerResp RegisterResp.success)] := by
  rw [run_center hk]
  simp only [RegisterTask.locked, hp]
  rfl

theorem recorded_locked {now : ℤ} {c : Center} {t : RegisterTask} {pc : RegisterPc}
    (hpc : (t.locked now c).2 = some pc) (hr : RegisterTask.Recorded { t with pc := pc }) :
    ∃ nodeInfo, t.pc = .writeMaster nodeInfo := by
  cases hp : t.pc with
  | checkRegistered =>
    simp only [RegisterTask.locked, hp] at hpc
    split at hpc
    · cases hpc
    · split at hpc
      · cases hpc
      · split at hpc
        · cases hpc
        · obtain rfl := Option.some.inj hpc
          exact hr.elim
  | checkMaster nodeInfo =>
    simp only [RegisterTask.locked, hp] at hpc
    split at hpc
    · split at hpc
      · cases hpc
      · obtain rfl := Option.some.inj hpc
        exact hr.elim
    · rename_i hslave
      split at hpc
      · cases hpc
      · obtain rfl := Option.some.inj hpc
        simp only [RegisterTask.Recorded, hslave] at hr
        cases hr
  | writeMaster nodeInfo => exact ⟨nodeInfo,rfl⟩
  | insertNode nodeInfo =>
    simp only [RegisterTask.locked, hp] at hpc
    cases hpc

namespace FleetState
variable {ι : Type} (F : Fleet ι)

/-- The registry has recorded the process as the master, or has sent what makes it master. -/
def Granted (s : FleetState ι) (i : ι) : Prop :=
  (∃ t ∈ s.registry.tasks, t.peerId = F.peerId i ∧ RegisterTask.Recorded t) ∨
  ∃ x ∈ s.registry.center.sent, x.1 = F.peerId i ∧ MakesMaster (F.conf i) x.2

/-- The step at which the registry records a master or elects one. -/
def Grants (s : FleetState ι) (i : ι) : Option (FleetAct ι) → Prop
  | some (.run k _) =>
    match s.registry.tasks[k]? with
    | none => False
    | some t =>
      match t.pc with
      | .writeMaster _ => t.peerId = F.peerId i
      | _ => False
  | some (.pass clock) => s.registry.center.context.needElectMaster clock = true ∧
      electee s.registry.center.context clock = some (F.peerId i)
  | _ => False

/-- Whoever was granted mastership before has stopped when another one is. -/
def Careful (s : FleetState ι) (a : Option (FleetAct ι)) : Prop :=
  ∀ i j, s.Grants F i a → (s.processes i).life = .running → s.Granted F j →
    (s.processes j).life = .running → i = j

variable {F}

theorem not_makes_fail (conf : GameServerConf) (reason : String) :
    ¬ MakesMaster conf (Message.registerResp (RegisterResp.fail reason)) := by
  simp [MakesMaster, Message.registerResp, RegisterResp.fail, RegisterResp.new, Content.asRegisterResp]

theorem granted_run {s : FleetState ι} (h : s.Sound F) {i : ι} {k : ℕ} {now : ℤ}
    (hg : (s.withRegistry (s.registry.run k now)).Granted F i) :
    s.Granted F i ∨ s.Grants F i (some (.run k now)) := by
  cases hk : s.registry.tasks[k]? with
  | none =>
    rw [run_none hk] at hg
    exact Or.inl hg
  | some t =>
    obtain ⟨j,hof,hborn⟩ := h.tasks t (List.mem_of_getElem? hk)
    rcases hg with ⟨t',ht',hpeer,hrec⟩ | ⟨x,hx,hpeer,hmakes⟩
    · rcases mem_run_tasks hk ht' with hold | ⟨pc,hpc,rfl⟩
      · exact Or.inl (Or.inl ⟨t',hold,hpeer,hrec⟩)
      · obtain ⟨nodeInfo,hwrite⟩ := recorded_locked hpc hrec
        apply Or.inr
        simp only [Grants, hk, hwrite]
        exact hpeer
    · obtain ⟨new,hsent,hnew⟩ := locked_sent now s.registry.center t
      change x ∈ (s.registry.run k now).center.sent at hx
      rw [run_center hk, hsent] at hx
      rcases List.mem_append.mp hx with hx | hx
      · exact Or.inl (Or.inr ⟨x,hx,hpeer,hmakes⟩)
      · rcases hnew with rfl | ⟨reason,rfl⟩ | ⟨⟨nodeInfo,hinsert⟩,rfl⟩
        · cases hx
        · rw [List.mem_singleton.mp hx] at hmakes
          exact absurd hmakes (not_makes_fail _ reason)
        · -- the task that answers with success has recorded its node before
          rw [List.mem_singleton.mp hx] at hmakes hpeer
          have hij : j = i := F.peerId_injective (hof.peerId.symm.trans hpeer)
          have hnode := hof.pc
          rw [hinsert, hij] at hnode
          rcases hmakes with ⟨-,hconf,-⟩ | hop
          · refine Or.inl (Or.inl ⟨t,List.mem_of_getElem? hk,hpeer,?_⟩)
            simp only [RegisterTask.Recorded, hinsert]
            rw [hnode]
            exact hconf
          · cases hop

theorem granted_pass {s : FleetState ι} {i : ι} {clock : String → ℤ}
    (hg : (s.withRegistry (s.registry.next (.pass clock))).Granted F i) :
    s.Granted F i ∨ s.Grants F i (some (.pass clock)) := by
  rcases hg with ⟨t,ht,hpeer,hrec⟩ | ⟨x,hx,hpeer,hmakes⟩
  · exact Or.inl (Or.inl ⟨t,ht,hpeer,hrec⟩)
  · obtain ⟨new,hsent,hnew,-⟩ := pass_sent clock s.registry.center
    change x ∈ (heartbeatMonitor clock s.registry.center).state.sent at hx
    rw [hsent] at hx
    rcases List.mem_append.mp hx with hx | hx
    · exact Or.inl (Or.inr ⟨x,hx,hpeer,hmakes⟩)
    · obtain ⟨-,hresp,hcommand⟩ := hnew x hx
      rcases hmakes with ⟨hop,-⟩ | hop
      · exact absurd hop hresp
      · obtain ⟨hneed,helectee,-⟩ := hcommand hop
        rw [hpeer] at helectee
        exact Or.inr ⟨hneed,helectee⟩

theorem granted_receive {s : FleetState ι} (h : s.Sound F) {i : ι} {x : PeerIdentity × Message}
    (hx : x ∈ s.toRegistry) {now : ℤ}
    (hg : (s.withRegistry (receive s.registry now x.1 x.2)).Granted F i) : s.Granted F i := by
  rcases hg with ⟨t,ht,hpeer,hrec⟩ | ⟨y,hy,hpeer,hmakes⟩
  · change t ∈ (receive s.registry now x.1 x.2).tasks at ht
    unfold receive at ht
    split at ht
    · rcases List.mem_append.mp ht with ht | ht
      · exact Or.inl ⟨t,ht,hpeer,hrec⟩
      · rw [List.mem_singleton.mp ht] at hrec
        exact hrec.elim
    · exact Or.inl ⟨t,ht,hpeer,hrec⟩
  · change y ∈ (receive s.registry now x.1 x.2).center.sent at hy
    rw [(h.moves_receive hx now).sent, List.append_nil] at hy
    exact Or.inr ⟨y,hy,hpeer,hmakes⟩

namespace Sound
variable {s : FleetState ι}

theorem born_of_granted (h : s.Sound F) {i : ι} (hg : s.Granted F i) : (s.processes i).life ≠ .unborn := by
  rcases hg with ⟨t,ht,hpeer,-⟩ | ⟨x,hx,hpeer,-⟩
  · obtain ⟨j,hof,hborn⟩ := h.tasks t ht
    have hij : F.peerId i = F.peerId j := hpeer.symm.trans hof.peerId
    rw [F.peerId_injective hij]
    exact hborn
  · have hborn := h.sent x hx
    rw [hpeer] at hborn
    exact hborn.life

variable [DecidableEq ι]

/-- A running process that is granted mastership after a step was running before it, and
was granted it before or by the step. -/
theorem granted_step (h : s.Sound F) {t : FleetState ι} {a : Option (FleetAct ι)} (hst : FleetStep F s a t)
    {i : ι} (hrun : (t.processes i).life = .running) (hg : t.Granted F i) :
    (s.processes i).life = .running ∧ (s.Granted F i ∨ s.Grants F i a) := by
  cases hst with
  | reorder hs => exact ⟨hrun,Or.inl hg⟩
  | @act a ha =>
    cases a with
    | start j =>
      have hold : s.Granted F i := hg
      refine ⟨?_,Or.inl hold⟩
      by_cases hij : i = j
      · subst hij
        exact absurd ha (h.born_of_granted hold)
      · simp only [next, Function.update_of_ne hij] at hrun
        exact hrun
    | stop j =>
      refine ⟨?_,Or.inl hg⟩
      by_cases hij : i = j
      · subst hij
        simp only [next, Function.update_self] at hrun
        cases hrun
      · simp only [next, Function.update_of_ne hij] at hrun
        exact hrun
    | report j stateInfo => exact ⟨hrun,Or.inl hg⟩
    | receive k now =>
      cases hk : s.toRegistry[k]? with
      | none =>
        simp only [next, hk] at hrun hg
        exact ⟨hrun,Or.inl hg⟩
      | some x =>
        simp only [next, hk] at hrun hg
        exact ⟨hrun,Or.inl (granted_receive h (List.mem_of_getElem? hk) hg)⟩
    | run k now => exact ⟨hrun,granted_run h hg⟩
    | pass clock => exact ⟨hrun,granted_pass hg⟩
    | deliver j k =>
      cases hk : s.toServers[k]? with
      | none =>
        simp only [next, hk] at hrun hg
        exact ⟨hrun,Or.inl hg⟩
      | some x =>
        simp only [next, hk] at hrun hg
        by_cases hj : (s.processes j).life = .running
        · rw [if_pos hj] at hrun hg
          refine ⟨?_,Or.inl hg⟩
          by_cases hij : i = j
          · subst hij
            exact hj
          · simp only [FleetState.handle, Function.update_of_ne hij] at hrun
            exact hrun
        · rw [if_neg hj] at hrun hg
          exact ⟨hrun,Or.inl hg⟩

end Sound

theorem grants_unique {s : FleetState ι} {a : Option (FleetAct ι)} {i j : ι} (hi : s.Grants F i a)
    (hj : s.Grants F j a) : i = j := by
  cases a with
  | none => exact hi.elim
  | some a =>
    cases a with
    | run k now =>
      unfold Grants at hi hj
      dsimp only at hi hj
      split at hi
      · exact hi.elim
      · rename_i t hk
        rw [hk] at hj
        dsimp only at hj
        split at hi
        · rename_i hp
          rw [hp] at hj
          exact F.peerId_injective (hi.symm.trans hj)
        · exact hi.elim
    | pass clock => exact F.peerId_injective (Option.some.inj (hi.2.symm.trans hj.2))
    | start _ | stop _ | report _ _ | receive _ _ | deliver _ _ => exact hi.elim

variable (F) in
/-- At most one process that was granted mastership is running. -/
structure Inv (s : FleetState ι) : Prop where
  sound : s.Sound F
  single : ∀ i j, s.Granted F i → (s.processes i).life = .running → s.Granted F j →
    (s.processes j).life = .running → i = j

variable [DecidableEq ι]

theorem inv_start : (FleetState.start F).Inv F where
  sound := sound_start
  single i j hi hri := by cases hri

namespace Inv
variable {s t : FleetState ι}

theorem step {a : Option (FleetAct ι)} (h : s.Inv F) (hc : s.Careful F a) (hst : FleetStep F s a t) :
    t.Inv F := by
  refine ⟨h.sound.step hst,?_⟩
  intro i j hi hri hj hrj
  obtain ⟨hri,hi⟩ := h.sound.granted_step hst hri hi
  obtain ⟨hrj,hj⟩ := h.sound.granted_step hst hrj hj
  rcases hi with hi | hi
  · rcases hj with hj | hj
    · exact h.single i j hi hri hj hrj
    · exact (hc j i hj hrj hi hri).symm
  · rcases hj with hj | hj
    · exact hc i j hi hri hj hrj
    · exact grants_unique hi hj

omit [DecidableEq ι] in
theorem oneMaster (h : s.Inv F) : s.OneMaster := by
  intro i j hi hj
  exact h.single i j (Or.inr (h.sound.made i hi.2.2)) hi.1 (Or.inr (h.sound.made j hj.2.2)) hj.1

end Inv

/-! ## What is under way takes effect -/

variable (F) in
/-- A recorded node is inserted, or a message of the registry arrives. -/
inductive Settling (s : FleetState ι) : FleetState ι → Prop
  | insert {k : ℕ} {t : RegisterTask} {nodeInfo : NodeInfo} (now : ℤ) : s.registry.tasks[k]? = some t →
      t.pc = .insertNode nodeInfo → Settling s (s.next F (.run k now))
  | deliver {i : ι} {k : ℕ} : s.Admissible F (.deliver i k) → Settling s (s.next F (.deliver i k))

variable (F) in
/-- There is one master at most, also when all that the registry has granted takes effect. -/
def Undivided (s : FleetState ι) : Prop := ∀ t, Relation.ReflTransGen (Settling F) s t → t.OneMaster

theorem Settling.step {s t : FleetState ι} (h : Settling F s t) :
    ∃ a, FleetStep F s a t ∧ ∀ i, ¬ s.Grants F i a := by
  cases h with
  | @insert k task nodeInfo now hk hp =>
    refine ⟨some (.run k now),FleetStep.act trivial,?_⟩
    intro i hi
    simp only [Grants, hk, hp] at hi
  | @deliver i k ha => exact ⟨some (.deliver i k),FleetStep.act ha,fun _ hi => hi.elim⟩

theorem Inv.undivided {s : FleetState ι} (h : s.Inv F) : s.Undivided F := by
  intro t hst
  have ht : t.Inv F := by
    induction hst with
    | refl => exact h
    | tail _ hset ih =>
      obtain ⟨a,hstep,hno⟩ := hset.step
      exact ih.step (fun i _ hi => absurd hi (hno i)) hstep
  exact ht.oneMaster

namespace Sound
variable {s : FleetState ι}

omit [DecidableEq ι] in
/-- The answer to a recorded task makes its process master. -/
theorem makes_of_recorded (h : s.Sound F) {t : RegisterTask} {i : ι} (ht : t ∈ s.registry.tasks)
    (hpeer : t.peerId = F.peerId i) (hrec : RegisterTask.Recorded t) :
    MakesMaster (F.conf i) (Message.registerResp RegisterResp.success) := by
  obtain ⟨j,hof,-⟩ := h.tasks t ht
  obtain ⟨nodeInfo,hp,hmaster⟩ := recorded_iff.mp hrec
  have hij : j = i := F.peerId_injective (hof.peerId.symm.trans hpeer)
  have hnode := hof.pc
  rw [hp, hij] at hnode
  rw [hnode] at hmaster
  exact Or.inl ⟨rfl,hmaster,rfl⟩

theorem granted_run_mono (h : s.Sound F) (k : ℕ) (now : ℤ) {i : ι} (hg : s.Granted F i) :
    (s.next F (.run k now)).Granted F i := by
  change (s.withRegistry (s.registry.run k now)).Granted F i
  cases hk : s.registry.tasks[k]? with
  | none =>
    rw [run_none hk]
    exact hg
  | some t =>
    obtain ⟨new,hsent,-⟩ := locked_sent now s.registry.center t
    have hsent' : (s.registry.run k now).center.sent = s.registry.center.sent ++ new := by
      rw [run_center hk]
      exact hsent
    rcases hg with ⟨t',ht',hpeer,hrec⟩ | ⟨x,hx,hpeer,hmakes⟩
    · obtain ⟨m,hm⟩ := List.getElem?_of_mem ht'
      by_cases hmk : m = k
      · subst hmk
        obtain rfl : t = t' := Option.some.inj (hk.symm.trans hm)
        obtain ⟨nodeInfo,hp⟩ := recorded_iff.mp hrec
        refine Or.inr ⟨(t.peerId,Message.registerResp RegisterResp.success),?_,hpeer,
          h.makes_of_recorded ht' hpeer hrec⟩
        show _ ∈ (s.registry.run m now).center.sent
        rw [run_insert hk hp.1]
        exact List.mem_append_right _ List.mem_cons_self
      · refine Or.inl ⟨t',?_,hpeer,hrec⟩
        show t' ∈ (s.registry.run k now).tasks
        simp only [Interleaved.run, hk]
        split
        · exact List.mem_eraseIdx_iff_getElem?.mpr ⟨m,hmk,hm⟩
        · exact List.mem_of_getElem? ((List.getElem?_set_ne (Ne.symm hmk)).trans hm)
    · refine Or.inr ⟨x,?_,hpeer,hmakes⟩
      show x ∈ (s.registry.run k now).center.sent
      rw [hsent']
      exact List.mem_append_left _ hx

omit [DecidableEq ι] in
theorem granted_pass_mono {clock : String → ℤ} {i : ι} (hg : s.Granted F i) :
    (s.withRegistry (s.registry.next (.pass clock))).Granted F i := by
  obtain ⟨new,hsent,-⟩ := pass_sent clock s.registry.center
  rcases hg with ⟨t,ht,hpeer,hrec⟩ | ⟨x,hx,hpeer,hmakes⟩
  · exact Or.inl ⟨t,ht,hpeer,hrec⟩
  · refine Or.inr ⟨x,?_,hpeer,hmakes⟩
    show x ∈ (heartbeatMonitor clock s.registry.center).state.sent
    rw [hsent]
    exact List.mem_append_left _ hx

/-- Whom a step grants mastership has it afterwards, and the others keep it. -/
theorem granted_of_grants (h : s.Sound F) {t : FleetState ι} {a : Option (FleetAct ι)} {i j : ι}
    (hst : FleetStep F s a t) (hi : s.Grants F i a) (hj : s.Granted F j) :
    t.Granted F i ∧ t.Granted F j ∧ t.processes = s.processes := by
  cases hst with
  | reorder hs => exact hi.elim
  | @act a ha =>
    cases a with
    | run k now =>
      refine ⟨?_,h.granted_run_mono k now hj,rfl⟩
      unfold Grants at hi
      dsimp only at hi
      split at hi
      · exact hi.elim
      · rename_i task hk
        split at hi
        · rename_i nodeInfo hp
          obtain ⟨m,hof,-⟩ := h.tasks task (List.mem_of_getElem? hk)
          have hpc := hof.pc
          rw [hp] at hpc
          refine Or.inl ⟨{ task with pc := .insertNode nodeInfo },?_,hi,hpc.2⟩
          show _ ∈ (s.registry.run k now).tasks
          simp only [Interleaved.run, hk, RegisterTask.locked, hp]
          obtain ⟨hlt,-⟩ := List.getElem?_eq_some_iff.mp hk
          exact List.mem_set hlt _
        · exact hi.elim
    | pass clock =>
      refine ⟨?_,granted_pass_mono hj,rfl⟩
      obtain ⟨new,hsent,-,hcommand⟩ := pass_sent clock s.registry.center
      obtain ⟨x,hx,hpeer,hop⟩ := hcommand hi.1 _ hi.2
      refine Or.inr ⟨x,?_,hpeer,Or.inr hop⟩
      show x ∈ (heartbeatMonitor clock s.registry.center).state.sent
      rw [hsent]
      exact List.mem_append_right _ hx
    | start _ | stop _ | report _ _ | receive _ _ | deliver _ _ => exact hi.elim

/-- What makes a running process master, once it arrives. -/
theorem deliver_master (h : s.Sound F) {i : ι} (hrun : (s.processes i).life = .running)
    {x : PeerIdentity × Message} (hx : x ∈ s.toServers) (hpeer : x.1 = F.peerId i)
    (hmakes : MakesMaster (F.conf i) x.2) :
    ∃ t, Settling F s t ∧ (t.processes i).IsMaster ∧ (∀ j, j ≠ i → t.processes j = s.processes j) ∧
      t.registry = s.registry := by
  obtain ⟨k,hk⟩ := List.getElem?_of_mem hx
  have ha : s.Admissible F (.deliver i k) := by
    intro y hy
    rw [hk] at hy
    rw [← Option.some.inj hy]
    exact hpeer
  have hborn : (s.processes i).life ≠ .unborn := Life.ne_unborn hrun
  have hexits : (handleRespFromRegistryCenterTask (s.processes i).context x.2).exits = false := by
    unfold handleRespFromRegistryCenterTask
    rcases hmakes with ⟨hop,-,hsuccess⟩ | hop
    · rw [hop]
      dsimp only
      cases hr : x.2.content.bind Content.asRegisterResp with
      | none => rfl
      | some registerResp =>
        rw [hr] at hsuccess
        simpa using hsuccess
    · rw [hop]
  refine ⟨_,Settling.deliver ha,?_⟩
  simp only [next, hk]
  rw [if_pos hrun]
  refine ⟨⟨?_,?_,?_⟩,?_,rfl⟩
  · simp only [FleetState.handle, Function.update_self, Process.handle, hexits]
    exact hrun
  · simp only [FleetState.handle, Function.update_self]
    exact handleResp_makes hmakes (h.configured i hborn)
  · simp only [FleetState.handle, Function.update_self]
    exact Process.handle_madeMaster.mpr (Or.inr hmakes)
  · intro j hj
    simp only [FleetState.handle, Function.update_of_ne hj]

/-- A running process that was granted mastership acts as master once that takes effect. -/
theorem settle (h : s.Sound F) {i : ι} (hg : s.Granted F i) (hrun : (s.processes i).life = .running) :
    ∃ t, Relation.ReflTransGen (Settling F) s t ∧ t.Sound F ∧ (t.processes i).IsMaster ∧
      (∀ j, j ≠ i → t.processes j = s.processes j) ∧ ∀ j, s.Granted F j → t.Granted F j := by
  by_cases hmade : (s.processes i).madeMaster = true
  · exact ⟨s,Relation.ReflTransGen.refl,h,⟨hrun,h.converted i hmade,hmade⟩,fun _ _ => rfl,fun _ hj => hj⟩
  · -- it is enough that the message which makes it master is under way after some steps
    have harrives : ∀ u, Relation.ReflTransGen (Settling F) s u → u.Sound F → u.processes = s.processes →
        (∀ j, s.Granted F j → u.Granted F j) →
        (∃ x ∈ u.toServers, x.1 = F.peerId i ∧ MakesMaster (F.conf i) x.2) →
        ∃ t, Relation.ReflTransGen (Settling F) s t ∧ t.Sound F ∧ (t.processes i).IsMaster ∧
          (∀ j, j ≠ i → t.processes j = s.processes j) ∧ ∀ j, s.Granted F j → t.Granted F j := by
      rintro u hreach hu hproc hgranted ⟨x,hx,hpeer,hmakes⟩
      have hrun' : (u.processes i).life = .running := by
        rw [hproc]
        exact hrun
      obtain ⟨t,hset,hmaster,hothers,hregistry⟩ := hu.deliver_master hrun' hx hpeer hmakes
      obtain ⟨a,hstep,-⟩ := hset.step
      refine ⟨t,hreach.tail hset,hu.step hstep,hmaster,?_,?_⟩
      · intro j hj
        rw [hothers j hj, hproc]
      · intro j hj
        have hgj := hgranted j hj
        unfold Granted
        rw [hregistry]
        exact hgj
    rcases hg with ⟨t,ht,hpeer,hrec⟩ | ⟨x,hx,hpeer,hmakes⟩
    · obtain ⟨k,hk⟩ := List.getElem?_of_mem ht
      obtain ⟨nodeInfo,hp,-⟩ := recorded_iff.mp hrec
      have hset : Settling F s (s.next F (.run k 0)) := Settling.insert 0 hk hp
      obtain ⟨a,hstep,-⟩ := hset.step
      apply harrives _ (Relation.ReflTransGen.single hset) (h.step hstep) rfl
      · exact fun j hj => h.granted_run_mono k 0 hj
      · refine ⟨(t.peerId,Message.registerResp RegisterResp.success),?_,hpeer,
          h.makes_of_recorded ht hpeer hrec⟩
        show _ ∈ s.toServers ++ (s.registry.run k 0).center.sent.drop s.registry.center.sent.length
        rw [run_insert hk hp, List.drop_left]
        exact List.mem_append_right _ List.mem_cons_self
    · have hin : x ∈ s.toServers := (h.received i hrun x hx hpeer hmakes).resolve_left hmade
      exact harrives s Relation.ReflTransGen.refl h rfl (fun _ hj => hj) ⟨x,hin,hpeer,hmakes⟩

theorem careful_of_undivided (h : s.Sound F) {t : FleetState ι} {a : Option (FleetAct ι)}
    (hst : FleetStep F s a t) (hu : t.Undivided F) : s.Careful F a := by
  intro i j hi hri hj hrj
  by_contra hne
  obtain ⟨hgi,hgj,hproc⟩ := h.granted_of_grants hst hi hj
  rw [← hproc] at hri hrj
  obtain ⟨u,hreach,hsound,hmaster,hothers,hgranted⟩ := (h.step hst).settle hgj hrj
  have hrun : (u.processes i).life = .running := by
    rw [hothers i hne]
    exact hri
  obtain ⟨v,hreach',-,hmaster',hothers',-⟩ := hsound.settle (hgranted i hgi) hrun
  apply hne
  apply hu v (hreach.trans hreach') i j hmaster'
  rw [hothers' j (Ne.symm hne)]
  exact hmaster

end Sound

/-- There stays one master at most, also once all that is under way takes effect, just as long
as whoever was granted mastership has stopped when another one is. -/
theorem undivided_iff {past : List (FleetState ι × Option (FleetAct ι))} {s : FleetState ι}
    (h : Run (fleetLts F) past s) :
    Run.Always (Undivided F) past s ↔ ∀ p ∈ past, p.1.Careful F p.2 := by
  apply Run.always_iff (I := Inv F) (C := Careful F) _ _ _ _ h
  · rintro s rfl
    exact inv_start
  · exact fun s hs => hs.undivided
  · exact fun s a t hs hc hst => hs.step hc hst
  · exact fun s a t hs hst hu => hs.sound.careful_of_undivided hst hu

/-- As long as whoever was granted mastership has stopped when another one is, at most one
running process acts as a master that the registry made. -/
theorem no_split_brain {past : List (FleetState ι × Option (FleetAct ι))} {s : FleetState ι}
    (h : Run (fleetLts F) past s) (hc : ∀ p ∈ past, p.1.Careful F p.2) : Run.Always OneMaster past s := by
  have hu := (undivided_iff h).mpr hc
  have hone : ∀ s : FleetState ι, s.Undivided F → s.OneMaster :=
    fun s hs => hs s Relation.ReflTransGen.refl
  exact ⟨hone s hu.1,fun p hp => hone p.1 (hu.2 p hp)⟩

end FleetState

/-! ## A master that is late -/

instance (t : RegisterTask) : Decidable (RegisterTask.Recorded t) :=
  match t with
  | ⟨_,_,.insertNode nodeInfo⟩ => inferInstanceAs (Decidable (nodeInfo.nodeType = .Master))
  | ⟨_,_,.checkRegistered⟩ => isFalse id
  | ⟨_,_,.checkMaster _⟩ => isFalse id
  | ⟨_,_,.writeMaster _⟩ => isFalse id

instance (p : Process) : Decidable p.IsMaster := inferInstanceAs (Decidable (_ ∧ _))

namespace FleetState
variable {ι : Type} (F : Fleet ι) (s : FleetState ι)

instance (i : ι) : Decidable (s.Granted F i) := inferInstanceAs (Decidable (_ ∨ _))

instance (i : ι) (a : Option (FleetAct ι)) : Decidable (s.Grants F i a) :=
  match a with
  | some (.run k _) =>
    match h : s.registry.tasks[k]? with
    | none => isFalse (by simp only [Grants, h, not_false_eq_true])
    | some ⟨_,peerId,.writeMaster _⟩ =>
      decidable_of_iff (peerId = F.peerId i) (by simp only [Grants, h])
    | some ⟨_,_,.checkRegistered⟩ => isFalse (by simp only [Grants, h, not_false_eq_true])
    | some ⟨_,_,.checkMaster _⟩ => isFalse (by simp only [Grants, h, not_false_eq_true])
    | some ⟨_,_,.insertNode _⟩ => isFalse (by simp only [Grants, h, not_false_eq_true])
  | some (.pass clock) => inferInstanceAs (Decidable (s.registry.center.context.needElectMaster clock = true ∧
      electee s.registry.center.context clock = some (F.peerId i)))
  | some (.start _) => isFalse id
  | some (.stop _) => isFalse id
  | some (.report _ _) => isFalse id
  | some (.receive _ _) => isFalse id
  | some (.deliver _ _) => isFalse id
  | none => isFalse id

variable [DecidableEq ι]

instance (a : FleetAct ι) : Decidable (s.Admissible F a) :=
  match a with
  | .start i => inferInstanceAs (Decidable ((s.processes i).life = .unborn))
  | .stop i => inferInstanceAs (Decidable ((s.processes i).life = .running))
  | .report i _ =>
    inferInstanceAs (Decidable ((s.processes i).life = .running ∧ (F.conf i).app.mode = .Cluster))
  | .receive _ _ => isTrue trivial
  | .run _ _ => isTrue trivial
  | .pass _ => inferInstanceAs (Decidable (s.registry.monitoring = true))
  | .deliver i k => inferInstanceAs (Decidable (∀ x ∈ s.toServers[k]?, x.1 = F.peerId i))

instance [Fintype ι] (a : Option (FleetAct ι)) : Decidable (s.Careful F a) :=
  inferInstanceAs (Decidable (∀ i j, s.Grants F i a → (s.processes i).life = .running → s.Granted F j →
    (s.processes j).life = .running → i = j))

end FleetState

def pairFleet (other : GameServerConf) : Fleet Bool where
  conf i := if i then other else GameServerConf.master
  peerId i := if i then "other" else "master"
  peerId_injective := by
    intro i j h
    cases i <;> cases j
    · rfl
    · exact absurd h (by decide)
    · exact absurd h (by decide)
    · rfl

theorem run_pairFleet (other : GameServerConf) (acts : List (FleetAct Bool))
    (ha : Run.Allowed (FleetState.next (pairFleet other)) (FleetState.Admissible (pairFleet other))
      (FleetState.start (pairFleet other)) acts) :
    Run (fleetLts (pairFleet other))
      (Run.record (FleetState.next (pairFleet other)) some (FleetState.start (pairFleet other)) acts ++ [])
      (acts.foldl (FleetState.next (pairFleet other)) (FleetState.start (pairFleet other))) :=
  Run.of_acts (FleetState.next (pairFleet other)) (FleetState.Admissible (pairFleet other)) some
    (fun _ _ h => FleetStep.act h) (Run.start rfl) ha

/-- Both nodes register, the slave four seconds later. Six seconds after its registration the
master has not been heard of, and the slave is elected. -/
def failover (between : List (FleetAct Bool)) : List (FleetAct Bool) :=
  [.start false,.receive 0 0,.run 0 0,.run 0 0,.run 0 0,.run 0 0,.deliver false 0,
    .start true,.receive 0 4000,.run 0 4000,.run 0 4000,.run 0 4000,.deliver true 0] ++ between ++
  [.pass (fun _ => 6000),.deliver true 0]

theorem no_split_brain_failover : Run.Always FleetState.OneMaster
    (Run.record (FleetState.next (pairFleet .slave)) some (FleetState.start (pairFleet .slave))
      (failover [.stop false]) ++ [])
    ((failover [.stop false]).foldl (FleetState.next (pairFleet .slave)) (FleetState.start (pairFleet .slave))) :=
  FleetState.no_split_brain (run_pairFleet .slave (failover [.stop false]) (by decide +kernel))
    (by decide +kernel)

def secondMaster : GameServerConf :=
  { GameServerConf.slave with node := { GameServerConf.slave.node with nodeType := .Master } }

/-- Two masters register, and both tasks find no master before either has recorded itself. -/
def twoRegistrations : List (FleetAct Bool) :=
  [.start false,.start true,.receive 0 0,.receive 0 0,.run 0 0,.run 1 0,.run 0 0,.run 1 0,.run 0 0,.run 1 0,
    .run 0 0,.run 0 0,.deliver false 0,.deliver true 0]

/-- Two masters run when the reports of the first are late, and when two register at once. -/
theorem split_brain :
    (∃ past s, Run (fleetLts (pairFleet .slave)) past s ∧ ¬ s.OneMaster) ∧
    ∃ past s, Run (fleetLts (pairFleet secondMaster)) past s ∧ ¬ s.OneMaster := by
  constructor
  · refine ⟨_,_,run_pairFleet .slave (failover [.report false StateInfo.default]) (by decide +kernel),?_⟩
    intro h
    have hboth : false = true := h false true (by decide +kernel) (by decide +kernel)
    cases hboth
  · refine ⟨_,_,run_pairFleet secondMaster twoRegistrations (by decide +kernel),?_⟩
    intro h
    have hboth : false = true := h false true (by decide +kernel) (by decide +kernel)
    cases hboth

end GameServer.Cluster
