import GameServer.Cluster.Fleet

/-! # Every registration is answered once

A `Register` task ends with one answer to the peer that sent the message, after four locked
sections at most, whatever the other tasks, the reports and the monitor do in between. The
answer is a success exactly if the task has inserted the node. Nothing else the registry
does is answered with a `RegisterResp`.
-/
namespace GameServer.Cluster
open Common Library Registry

/-- The message answers a registration of the peer, and how. -/
def answersTo (peerId : PeerIdentity) (isSuccess : Bool) (x : PeerIdentity × Message) : Bool :=
  decide (x.1 = peerId ∧ x.2.operation = .RegisterResp) &&
    (x.2.content.bind Content.asRegisterResp).any (fun r => r.isSuccess == isSuccess)

def waitsFor (peerId : PeerIdentity) (t : RegisterTask) : Bool := decide (t.peerId = peerId)

def registers (peerId : PeerIdentity) (p : Interleaved × Option InterleavedAct) : Bool :=
  match p.2 with
  | some (.arrive _ _ peerId') => decide (peerId' = peerId)
  | _ => false

def locker (p : Interleaved × Option InterleavedAct) : Option RegisterTask :=
  match p.2 with
  | some (.run k _) => p.1.tasks[k]?
  | _ => none

def inserts (peerId : PeerIdentity) (p : Interleaved × Option InterleavedAct) : Bool :=
  match locker p with
  | some { msg := _, peerId := peerId', pc := .insertNode _ } => decide (peerId' = peerId)
  | _ => false

/-- The sections a task may still need. -/
def sections (t : RegisterTask) : ℕ :=
  match t.pc with
  | .checkRegistered => 4
  | .checkMaster _ => 3
  | .writeMaster _ => 2
  | .insertNode _ => 1

def arrives (p : Interleaved × Option InterleavedAct) : Bool :=
  match p.2 with
  | some (.arrive _ _ _) => true
  | _ => false

/-- A section either leads to a later one and sends nothing, or ends the task with its answer. -/
inductive SectionEnds (now : ℤ) (c : Center) (t : RegisterTask) : Prop
  | goesOn (pc : RegisterPc) : (t.locked now c).2 = some pc → (t.locked now c).1.sent = c.sent →
      sections { t with pc := pc } < sections t → (∀ nodeInfo, t.pc ≠ .insertNode nodeInfo) → SectionEnds now c t
  | refused (reason : String) : (t.locked now c).2 = none → (t.locked now c).1.sent =
      c.sent ++ [(t.peerId,Message.registerResp (RegisterResp.fail reason))] →
      (∀ nodeInfo, t.pc ≠ .insertNode nodeInfo) → SectionEnds now c t
  | inserted (nodeInfo : NodeInfo) : (t.locked now c).2 = none → (t.locked now c).1.sent =
      c.sent ++ [(t.peerId,Message.registerResp RegisterResp.success)] →
      t.pc = .insertNode nodeInfo → SectionEnds now c t

theorem sectionEnds {t : RegisterTask} (h : t.OfNode) (now : ℤ) (c : Center) : SectionEnds now c t := by
  cases hp : t.pc with
  | checkRegistered =>
    simp only [RegisterTask.OfNode, hp] at h
    obtain ⟨nodeInfo,nodeType,hmsg⟩ := h
    have hcontent : t.msg.content = some (.nodeInfo nodeInfo) := by rw [hmsg]; rfl
    by_cases hin : (c.context.nodeList.lookup t.msg.clientId).isSome
    · apply SectionEnds.refused "already register"
      · simp only [RegisterTask.locked, hp, hin, if_true]
      · simp only [RegisterTask.locked, hp, hin, if_true]
        rfl
      · simp [hp]
    · apply SectionEnds.goesOn (.checkMaster nodeInfo)
      · simp only [RegisterTask.locked, hp, hin, hcontent, Content.asNodeInfo]
        rfl
      · simp only [RegisterTask.locked, hp, hin, hcontent, Content.asNodeInfo]
        rfl
      · simp [sections, hp]
      · simp [hp]
  | checkMaster nodeInfo =>
    cases ht : nodeInfo.nodeType with
    | Master =>
      by_cases hm : c.context.masterNode.isSome
      · apply SectionEnds.refused "only one master node can exist"
        · simp only [RegisterTask.locked, hp, ht, hm, if_true]
        · simp only [RegisterTask.locked, hp, ht, hm, if_true]
          rfl
        · simp [hp]
      · apply SectionEnds.goesOn (.writeMaster nodeInfo)
        · simp [RegisterTask.locked, hp, ht, hm]
        · simp [RegisterTask.locked, hp, ht, hm]
        · simp [sections, hp]
        · simp [hp]
    | Slave =>
      by_cases hm : c.context.masterNode.isNone
      · apply SectionEnds.refused "master node not exist,can't register slave"
        · simp only [RegisterTask.locked, hp, ht, hm, if_true]
        · simp only [RegisterTask.locked, hp, ht, hm, if_true]
          rfl
        · simp [hp]
      · apply SectionEnds.goesOn (.insertNode nodeInfo)
        · simp [RegisterTask.locked, hp, ht, hm]
        · simp [RegisterTask.locked, hp, ht, hm]
        · simp [sections, hp]
        · simp [hp]
  | writeMaster nodeInfo =>
    apply SectionEnds.goesOn (.insertNode nodeInfo)
    · simp only [RegisterTask.locked, hp]
    · simp only [RegisterTask.locked, hp]
      rfl
    · simp [sections, hp]
    · simp [hp]
  | insertNode nodeInfo =>
    apply SectionEnds.inserted nodeInfo
    · simp only [RegisterTask.locked, hp]
    · simp only [RegisterTask.locked, hp]
      rfl
    · exact hp

/-- The account of a peer: its registrations were answered or wait, and a success was sent for
each node inserted. -/
structure Accounted (peerId : PeerIdentity) (past : List (Interleaved × Option InterleavedAct))
    (s : Interleaved) : Prop where
  answered : s.center.sent.countP (answersTo peerId true) + s.center.sent.countP (answersTo peerId false) +
    s.tasks.countP (waitsFor peerId) = past.countP (registers peerId)
  success : s.center.sent.countP (answersTo peerId true) = past.countP (inserts peerId)

section
variable {peerId : PeerIdentity} {past : List (Interleaved × Option InterleavedAct)} {s : Interleaved}

theorem answersTo_reply (peerId p : PeerIdentity) (isSuccess : Bool) (r : RegisterResp) :
    answersTo peerId isSuccess (p,Message.registerResp r) = (decide (p = peerId) && r.isSuccess == isSuccess) := by
  simp [answersTo, Message.registerResp, Content.asRegisterResp]

theorem answersTo_other {x : PeerIdentity × Message} (h : x.2.operation ≠ .RegisterResp) (peerId : PeerIdentity)
    (isSuccess : Bool) : answersTo peerId isSuccess x = false := by
  simp [answersTo, h]

theorem Accounted.quiet (h : Accounted peerId past s) {t : Interleaved} {p : Interleaved × Option InterleavedAct}
    (htasks : t.tasks = s.tasks) (hsent : ∃ new, t.center.sent = s.center.sent ++ new ∧
      ∀ x ∈ new, x.2.operation ≠ .RegisterResp) (hr : registers peerId p = false) (hl : locker p = none) :
    Accounted peerId (p :: past) t := by
  obtain ⟨new,hnew,hop⟩ := hsent
  have hcount : ∀ b, t.center.sent.countP (answersTo peerId b) = s.center.sent.countP (answersTo peerId b) := by
    intro b
    have hzero : new.countP (answersTo peerId b) = 0 := by
      rw [List.countP_eq_zero]
      intro x hx
      rw [answersTo_other (hop x hx)]
      decide
    rw [hnew, List.countP_append, hzero, add_zero]
  have hi : inserts peerId p = false := by
    unfold inserts
    rw [hl]
  refine ⟨?_,?_⟩
  · rw [hcount, hcount, htasks, List.countP_cons, hr]
    exact h.answered
  · rw [hcount, List.countP_cons, hi]
    exact h.success

theorem inserts_eq_false {p : Interleaved × Option InterleavedAct} {t : RegisterTask} (hl : locker p = some t)
    (hno : ∀ nodeInfo, t.pc ≠ .insertNode nodeInfo) : inserts peerId p = false := by
  unfold inserts
  rw [hl]
  split
  · rename_i heq
    obtain rfl := Option.some.inj heq
    exact absurd rfl (hno _)
  · rfl

theorem Accounted.answers (h : Accounted peerId past s) {k : ℕ} {now : ℤ} {t : RegisterTask}
    (hk : s.tasks[k]? = some t) (hpc : (t.locked now s.center).2 = none) {r : RegisterResp}
    (hsent : (t.locked now s.center).1.sent = s.center.sent ++ [(t.peerId,Message.registerResp r)])
    (hi : inserts peerId (s,some (.run k now)) = (decide (t.peerId = peerId) && r.isSuccess)) :
    Accounted peerId ((s,some (.run k now)) :: past) (s.run k now) := by
  have hreg : registers peerId (s,some (.run k now)) = false := rfl
  have htasks : (s.run k now).tasks = s.tasks.eraseIdx k := by
    simp only [Interleaved.run, hk, hpc]
  have hanswered := h.answered
  rw [Pool.countP_eraseIdx hk] at hanswered
  refine ⟨?_,?_⟩
  · rw [run_center hk now, hsent, htasks, List.countP_cons, hreg, List.countP_append, List.countP_append,
      List.countP_singleton, List.countP_singleton, answersTo_reply, answersTo_reply, ← hanswered]
    simp only [waitsFor]
    by_cases hp : t.peerId = peerId
    · cases r.isSuccess <;> simp [hp] <;> omega
    · simp [hp]
  · rw [run_center hk now, hsent, List.countP_cons, hi, List.countP_append, List.countP_singleton,
      answersTo_reply, h.success]
    cases r.isSuccess <;> rfl

theorem Accounted.run (h : Accounted peerId past s) (ht : ∀ t ∈ s.tasks, t.OfNode) (k : ℕ) (now : ℤ) :
    Accounted peerId ((s,some (.run k now)) :: past) (s.run k now) := by
  have hreg : registers peerId (s,some (.run k now)) = false := rfl
  cases hk : s.tasks[k]? with
  | none =>
    rw [run_none hk]
    exact h.quiet rfl ⟨[],(List.append_nil _).symm,fun x hx => by cases hx⟩ hreg (by simp only [locker, hk])
  | some t =>
    have hlock : locker (s,some (.run k now)) = some t := hk
    cases sectionEnds (ht t (List.mem_of_getElem? hk)) now s.center with
    | goesOn pc hpc hsent _ hno =>
      have htasks : (s.run k now).tasks = s.tasks.set k { t with pc := pc } := by
        simp only [Interleaved.run, hk, hpc]
      have hwaits : waitsFor peerId { t with pc := pc } = waitsFor peerId t := rfl
      refine ⟨?_,?_⟩
      · rw [run_center hk now, hsent, htasks, List.countP_cons, hreg, Pool.countP_set hk hwaits]
        exact h.answered
      · rw [run_center hk now, hsent, List.countP_cons, inserts_eq_false hlock hno]
        exact h.success
    | refused reason hpc hsent hno =>
      apply h.answers hk hpc hsent
      rw [inserts_eq_false hlock hno]
      exact (Bool.and_false _).symm
    | inserted nodeInfo hpc hsent hp =>
      apply h.answers hk hpc hsent
      obtain ⟨msg,peerId',pc⟩ := t
      dsimp only at hp
      subst hp
      simp only [inserts, hlock]
      exact (Bool.and_true _).symm

theorem Accounted.arrive (h : Accounted peerId past s) {nodeInfo : NodeInfo} {nodeType : NodeType}
    {peerId' : PeerIdentity} : Accounted peerId ((s,some (.arrive nodeInfo nodeType peerId')) :: past)
      (s.next (.arrive nodeInfo nodeType peerId')) := by
  have hanswered := h.answered
  refine ⟨?_,?_⟩
  · have hwaits : (s.next (.arrive nodeInfo nodeType peerId')).tasks.countP (waitsFor peerId) =
        s.tasks.countP (waitsFor peerId) + if peerId' = peerId then 1 else 0 := by
      simp [Interleaved.next, waitsFor, List.countP_cons]
    have hreg : ((s,some (.arrive nodeInfo nodeType peerId')) :: past).countP (registers peerId) =
        past.countP (registers peerId) + if peerId' = peerId then 1 else 0 := by
      simp [registers, List.countP_cons]
    have hsent : (s.next (.arrive nodeInfo nodeType peerId')).center.sent = s.center.sent := rfl
    rw [hsent, hwaits, hreg]
    omega
  · exact h.success.trans (List.countP_cons_of_neg (fun hc => by cases hc)).symm

/-- The sections taken and those the waiting tasks may need are four for each registration. -/
def Budgeted (past : List (Interleaved × Option InterleavedAct)) (s : Interleaved) : Prop :=
  (s.tasks.map sections).sum + past.countP (fun p => (locker p).isSome) ≤ 4 * past.countP arrives

theorem Budgeted.quiet (h : Budgeted past s) {t : Interleaved} {p : Interleaved × Option InterleavedAct}
    (htasks : t.tasks = s.tasks) (hl : locker p = none) : Budgeted (p :: past) t := by
  have hsections : (p :: past).countP (fun p => (locker p).isSome) = past.countP (fun p => (locker p).isSome) := by
    rw [List.countP_cons, hl]
    rfl
  have harrives := List.countP_cons (p := arrives) (a := p) (l := past)
  unfold Budgeted at h ⊢
  rw [htasks, hsections, harrives]
  omega

theorem Budgeted.run (h : Budgeted past s) (ht : ∀ t ∈ s.tasks, t.OfNode) (k : ℕ) (now : ℤ) :
    Budgeted ((s,some (.run k now)) :: past) (s.run k now) := by
  cases hk : s.tasks[k]? with
  | none =>
    rw [run_none hk]
    exact h.quiet rfl (by simp only [locker, hk])
  | some t =>
    have hlock : locker (s,some (.run k now)) = some t := hk
    have hsections : ((s,some (.run k now)) :: past).countP (fun p => (locker p).isSome) =
        past.countP (fun p => (locker p).isSome) + 1 := by
      rw [List.countP_cons, hlock]
      rfl
    have harrives : ((s,some (.run k now)) :: past).countP arrives = past.countP arrives :=
      List.countP_cons_of_neg (fun hc => by cases hc)
    have hpos : 0 < sections t := by
      unfold sections
      split <;> omega
    have hend : (t.locked now s.center).2 = none → Budgeted ((s,some (.run k now)) :: past) (s.run k now) := by
      intro hpc
      have htasks : (s.run k now).tasks = s.tasks.eraseIdx k := by
        simp only [Interleaved.run, hk, hpc]
      have hsum := Pool.sum_eraseIdx hk sections
      unfold Budgeted at h ⊢
      rw [htasks, hsections, harrives]
      omega
    cases sectionEnds (ht t (List.mem_of_getElem? hk)) now s.center with
    | goesOn pc hpc _ hless _ =>
      have htasks : (s.run k now).tasks = s.tasks.set k { t with pc := pc } := by
        simp only [Interleaved.run, hk, hpc]
      have hsum := Pool.sum_set hk { t with pc := pc } sections
      unfold Budgeted at h ⊢
      rw [htasks, hsections, harrives]
      omega
    | refused reason hpc _ _ => exact hend hpc
    | inserted nodeInfo hpc _ _ => exact hend hpc

theorem Budgeted.arrive (h : Budgeted past s) {nodeInfo : NodeInfo} {nodeType : NodeType}
    {peerId' : PeerIdentity} : Budgeted ((s,some (.arrive nodeInfo nodeType peerId')) :: past)
      (s.next (.arrive nodeInfo nodeType peerId')) := by
  have hsections : ((s,some (.arrive nodeInfo nodeType peerId')) :: past).countP (fun p => (locker p).isSome) =
      past.countP (fun p => (locker p).isSome) := List.countP_cons_of_neg (fun hc => by cases hc)
  have harrives : ((s,some (.arrive nodeInfo nodeType peerId')) :: past).countP arrives =
      past.countP arrives + 1 := List.countP_cons_of_pos rfl
  unfold Budgeted at h ⊢
  rw [hsections, harrives]
  simp only [Interleaved.next, List.map_append, List.map_singleton, List.sum_append, List.sum_singleton,
    sections]
  omega

theorem ofNode_arrive (h : ∀ t ∈ s.tasks, t.OfNode) {nodeInfo : NodeInfo} {nodeType : NodeType}
    {peerId' : PeerIdentity} : ∀ t ∈ (s.next (.arrive nodeInfo nodeType peerId')).tasks, t.OfNode := by
  intro t ht
  rcases List.mem_append.mp ht with ht | ht
  · exact h t ht
  · rw [List.mem_singleton.mp ht]
    exact ⟨nodeInfo,nodeType,rfl⟩

end

/-- Along every run, for every peer: each of its registrations waits or has been answered once,
it was answered with success as often as one of its tasks has inserted a node, and all tasks
together take no more than four locked sections for each registration that has arrived. -/
theorem registrations_answered {past : List (Interleaved × Option InterleavedAct)} {s : Interleaved}
    (h : Run interleavedLts past s) (peerId : PeerIdentity) : Accounted peerId past s ∧ Budgeted past s := by
  have hall : (∀ t ∈ s.tasks, t.OfNode) ∧ Accounted peerId past s ∧ Budgeted past s := by
    induction h with
    | start hs =>
      obtain rfl := hs
      exact ⟨(fun t ht => by cases ht),⟨rfl,rfl⟩,le_refl 0⟩
    | @next past s t a _ hst ih =>
      obtain ⟨htasks,hacc,hbud⟩ := ih
      cases hst with
      | reorder hs =>
        exact ⟨htasks,hacc.quiet rfl ⟨[],(List.append_nil _).symm,fun x hx => by cases hx⟩ rfl rfl,
          hbud.quiet rfl rfl⟩
      | @act a ha =>
        cases a with
        | arrive nodeInfo nodeType peerId' => exact ⟨ofNode_arrive htasks,hacc.arrive,hbud.arrive⟩
        | run k now => exact ⟨tasks_run htasks k now,hacc.run htasks k now,hbud.run htasks k now⟩
        | report clientId stateInfo peerId' now =>
          exact ⟨htasks,hacc.quiet rfl ⟨[],(List.append_nil _).symm,fun x hx => by cases hx⟩ rfl rfl,
            hbud.quiet rfl rfl⟩
        | convertToMasterResp nodeInfo peerId' now =>
          exact ⟨htasks,hacc.quiet rfl ⟨[],(List.append_nil _).symm,fun x hx => by cases hx⟩ rfl rfl,
            hbud.quiet rfl rfl⟩
        | pass clock =>
          obtain ⟨new,hsent,hnew,-⟩ := pass_sent clock s.center
          exact ⟨htasks,hacc.quiet rfl ⟨new,hsent,fun x hx => (hnew x hx).2.1⟩ rfl rfl,hbud.quiet rfl rfl⟩
  exact hall.2

theorem registrations_answered_in_turn :
    Accounted "heir" (Run.record Interleaved.next some Interleaved.start (twoMasters [0,0,0,0,0,0]))
      ((twoMasters [0,0,0,0,0,0]).foldl Interleaved.next Interleaved.start) :=
  (registrations_answered (run_interleaved (twoMasters [0,0,0,0,0,0]) (by decide +kernel)) "heir").1

end GameServer.Cluster
