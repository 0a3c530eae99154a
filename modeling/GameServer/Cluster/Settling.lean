import GameServer.Cluster.Acknowledged

/-! # Messages settle

A slave passes a message on to its master, the answer comes back through the slave, and the
relay of a slave takes part in both directions. Still nothing circulates: every hop brings a
message closer to its client, and an answer is never where nobody can take it any further.
-/
namespace GameServer.Cluster
open Common Library Server

variable {κ ι : Type}

/-- The hops a message may still make, being lost or thrown away included. -/
def Place.hops : Place κ ι → ℕ
  | .task (some _) _ => 7
  | .toMaster _ => 6
  | .task none _ => 5
  | .toClient none _ => 4
  | .fromMaster _ => 3
  | .toClient (some _) _ => 2
  | .client _ => 1

def PostState.hops (s : PostState κ ι) : ℕ := (s.letters.map (fun l => l.place.hops)).sum

deriving instance DecidableEq for Place
deriving instance DecidableEq for Letter

/-- A message has been taken on, answered or lost, and no request or expired heartbeat came in. -/
def moves [DecidableEq κ] [DecidableEq ι] (s t : PostState κ ι) : Bool :=
  decide (t.started = s.started ∧ ¬ t.letters.Perm s.letters)

section
variable {s : PostState κ ι} {l : Letter κ ι} {rest new : List (Letter κ ι)}

theorem hops_of_perm (hp : s.letters.Perm (l :: rest)) :
    s.hops = l.place.hops + (rest.map (fun l => l.place.hops)).sum := by
  unfold PostState.hops
  rw [(hp.map (fun l => l.place.hops)).sum_eq, List.map_cons, List.sum_cons]

theorem hops_replace (hp : s.letters.Perm (l :: rest))
    (hnew : (new.map (fun l => l.place.hops)).sum < l.place.hops) (worlds : ServerId ι → World) :
    ({ s with worlds := worlds, letters := new ++ rest } : PostState κ ι).hops < s.hops := by
  rw [hops_of_perm hp]
  simp only [PostState.hops, List.map_append, List.sum_append]
  omega

theorem hops_pos (l : Letter κ ι) : 0 < l.place.hops := by
  unfold Place.hops
  split <;> omega

theorem hops_move (hp : s.letters.Perm (l :: rest)) {x : Letter κ ι} (hx : x.place.hops < l.place.hops) :
    ({ s with letters := x :: rest } : PostState κ ι).hops < s.hops := by
  have hnew : ([x].map (fun l => l.place.hops)).sum < l.place.hops := hx
  exact hops_replace hp hnew s.worlds

end

section
variable {S : Setup ι} {N : Connections κ ι} {s t : PostState κ ι} {l : Letter κ ι}

/-- A handler of the master answers, and one of a slave answers or passes the message on. -/
theorem hops_post {server : ServerId ι} {peerId : PeerIdentity} {answer : Message → Prop} {h : Handled}
    (hs : Sends peerId answer (GoodPass (S.ctx server) peerId) h) (origin : Origin κ) :
    ((post h origin server).map (fun l => l.place.hops)).sum < (Place.task server peerId : Place κ ι).hops := by
  rcases post_cases hs origin server with he | ⟨m,-,he⟩ | ⟨m,⟨hslave,-⟩,he⟩
  · rw [he]
    cases server with
    | none => exact Nat.zero_lt_succ 4
    | some i => exact Nat.zero_lt_succ 6
  · rw [he, List.map_singleton, List.sum_singleton]
    cases server with
    | none => exact Nat.lt_succ_self 4
    | some i => exact (by decide : 2 < 7)
  · obtain ⟨i,rfl⟩ := exists_of_slave hslave
    rw [he, List.map_singleton, List.sum_singleton]
    exact Nat.lt_succ_self 6

theorem hops_expire {peerId : PeerIdentity} {pass : Message → Prop} {h : Handled}
    (hs : Sends peerId (fun _ => False) pass h) (origin : Origin κ) (server : ServerId ι) :
    ((post h origin server).map (fun l => l.place.hops)).sum ≤ 7 := by
  rcases post_cases hs origin server with he | ⟨m,hno,-⟩ | ⟨m,-,he⟩
  · rw [he]
    exact Nat.zero_le 7
  · exact absurd hno id
  · rw [he, List.map_singleton, List.sum_singleton]
    exact Nat.le_succ 6

theorem moves_of_started [DecidableEq κ] [DecidableEq ι] (h : t.started ≠ s.started) : moves s t = false :=
  decide_eq_false (fun hc => h hc.1)

theorem moves_of_letters [DecidableEq κ] [DecidableEq ι] (h : t.letters = s.letters) : moves s t = false :=
  decide_eq_false (fun hc => hc.2 (by rw [h]))

theorem hops_used [DecidableEq κ] [DecidableEq ι] (hlt : t.hops < s.hops) (hsame : t.started = s.started) :
    (moves s t).toNat + t.hops + 7 * s.started ≤ s.hops + 7 * t.started := by
  have hone := Bool.toNat_le (moves s t)
  rw [hsame]
  omega

/-- A step that takes a message on uses up a hop, and what comes in brings seven at most. -/
theorem hops_step [DecidableEq κ] [DecidableEq ι] (hst : PostStep S N s t) :
    (moves s t).toNat + t.hops + 7 * s.started ≤ s.hops + 7 * t.started := by
  cases hst with
  | @request k msg hop hback =>
    rw [moves_of_started (Nat.succ_ne_self s.started)]
    have hseven : (Place.task (N.home k) (N.identity k) : Place κ ι).hops ≤ 7 := by
      cases N.home k with
      | none => exact (by decide : 5 ≤ 7)
      | some i => exact Nat.le_refl 7
    simp only [PostState.hops, List.map_cons, List.sum_cons, Bool.toNat_false]
    omega
  | @handle l rest server peerId env horder hp hplace =>
    refine hops_used (hops_replace hp ?_ _) rfl
    rw [hplace]
    exact hops_post (sends_handleMsgTask env (S.ctx server) (s.worlds server) peerId l.msg) l.origin
  | expire server clientId =>
    rw [moves_of_started (Nat.succ_ne_self s.started)]
    have hsix := hops_expire (sends_removeOfflineClient (S.ctx server) (s.worlds server) clientId "")
      ({ client := none, number := s.started } : Origin κ) server
    simp only [PostState.hops, List.map_append, List.sum_append, Bool.toNat_false]
    omega
  | @deliver l rest k hp hplace =>
    refine hops_used (hops_move hp ?_) rfl
    rw [hplace]
    cases N.home k with
    | none => exact (by decide : 1 < 4)
    | some i => exact (by decide : 1 < 2)
  | @answer l rest i hp hplace =>
    refine hops_used (hops_move hp ?_) rfl
    rw [hplace]
    exact Nat.lt_succ_self 3
  | @forward l rest i hp hplace =>
    refine hops_used (hops_move hp ?_) rfl
    rw [hplace]
    exact Nat.lt_succ_self 5
  | @relay l rest i hp hplace =>
    refine hops_used (hops_replace hp ?_ s.worlds) rfl
    rw [hplace]
    cases relay l.msg with
    | none => exact Nat.zero_lt_succ 2
    | some answer => exact Nat.lt_succ_self 2
  | @lose l rest hp =>
    refine hops_used ?_ rfl
    rw [hops_of_perm hp]
    have hpos := hops_pos l
    simp only [PostState.hops]
    omega
  | world server w =>
    have hsame : moves s { s with worlds := Function.update s.worlds server w } = false := moves_of_letters rfl
    rw [hsame]
    simp only [PostState.hops, Bool.toNat_false, Nat.zero_add]
    exact le_rfl

end

/-! ## An answer can be brought home -/

section
variable [DecidableEq ι] {S : Setup ι} {N : Connections κ ι} {past : List (PostState κ ι × Unit)}
  {s : PostState κ ι} {l : Letter κ ι} {k : κ}

/-- Some further steps, with nothing coming in, bring the client this message for this request. -/
def BroughtHome (S : Setup ι) (N : Connections κ ι) (past : List (PostState κ ι × Unit)) (s : PostState κ ι)
    (l : Letter κ ι) (k : κ) : Prop :=
  ∃ later s', Run (postLts S N) (later ++ past) s' ∧ s'.started = s.started ∧
    ∃ d ∈ s'.delivered, d.1 = k ∧ d.2.origin = l.origin ∧ d.2.msg = l.msg

/-- One step first, if what it puts in the place of the message can be brought home. -/
theorem BroughtHome.after_step {t : PostState κ ι} {x : Letter κ ι} (h : BroughtHome S N ((s,()) :: past) t x k)
    (hstarted : t.started = s.started) (ho : x.origin = l.origin) (hm : x.msg = l.msg) :
    BroughtHome S N past s l k := by
  obtain ⟨later,s',hr,hs,d,hd,hk,hdo,hdm⟩ := h
  refine ⟨later ++ [(s,())],s',?_,hs.trans hstarted,d,hd,hk,hdo.trans ho,hdm.trans hm⟩
  rw [List.append_assoc]
  exact hr

theorem broughtHome_direct (h : Run (postLts S N) past s) (hl : l ∈ s.letters)
    (hplace : l.place = .toClient (N.home k) (N.identity k)) : BroughtHome S N past s l k := by
  obtain ⟨before,after,he⟩ := List.append_of_mem hl
  have hp : s.letters.Perm (l :: (before ++ after)) := by
    rw [he]
    exact List.perm_middle
  have hnext := h.next (a := ()) (PostStep.deliver hp hplace)
  refine ⟨[(s,())],_,hnext,rfl,(k,{ l with place := .client k }),?_,rfl,rfl,rfl⟩
  exact mem_delivered.mpr ⟨List.mem_cons_self,rfl⟩

theorem broughtHome_fromMaster (h : Run (postLts S N) past s) (hl : l ∈ s.letters) {i : ι}
    (hplace : l.place = .fromMaster i) (hk : l.origin.client = some k) (hr : l.Returns N i) :
    BroughtHome S N past s l k := by
  simp only [Letter.Returns, hk] at hr
  obtain ⟨hhome,hpeer⟩ := hr
  obtain ⟨before,after,he⟩ := List.append_of_mem hl
  have hp : s.letters.Perm (l :: (before ++ after)) := by
    rw [he]
    exact List.perm_middle
  have hnext := h.next (a := ()) (PostStep.relay hp hplace)
  have hrelay : relay l.msg = some (N.identity k,l.msg) := by
    simp only [relay, hpeer, Option.map_some]
  rw [hrelay] at hnext
  have hdirect := broughtHome_direct (k := k) hnext List.mem_cons_self (by rw [hhome])
  exact hdirect.after_step rfl rfl rfl

theorem broughtHome_answer (h : Run (postLts S N) past s) (hl : l ∈ s.letters)
    (hk : l.origin.client = some k) (hplace : (∃ server peerId, l.place = .toClient server peerId) ∨
      ∃ i, l.place = .fromMaster i) : BroughtHome S N past s l k := by
  have hr := (inv_of_reachable ⟨past,h⟩).routed l hl
  rcases hplace with ⟨server,peerId,hplace⟩ | ⟨i,hplace⟩
  · simp only [Letter.Routed, hplace] at hr
    rcases hr.2 with ⟨k',hk',hhome,hid⟩ | ⟨i,rfl,rfl,hback⟩
    · obtain rfl := Option.some.inj (hk.symm.trans hk')
      rw [← hhome, ← hid] at hplace
      exact broughtHome_direct h hl hplace
    · obtain ⟨before,after,he⟩ := List.append_of_mem hl
      have hp : s.letters.Perm (l :: (before ++ after)) := by
        rw [he]
        exact List.perm_middle
      have hnext := h.next (a := ()) (PostStep.answer hp hplace)
      have hhome := broughtHome_fromMaster hnext List.mem_cons_self rfl hk hback
      exact hhome.after_step rfl rfl rfl
  · simp only [Letter.Routed, hplace] at hr
    exact broughtHome_fromMaster h hl hplace hk hr.2

end

/-- However requests, expired heartbeats and losses come, messages are taken on at most seven
times for each thing that came in, so without new ones nothing goes on for ever; and an answer to
a client that is still under way can be brought to it by steps that need nothing to come in. -/
theorem messages_settle [DecidableEq κ] [DecidableEq ι] {S : Setup ι} {N : Connections κ ι}
    {past : List (PostState κ ι × Unit)} {s : PostState κ ι} (h : Run (postLts S N) past s) :
    Run.countSteps moves past s + s.hops ≤ 7 * s.started ∧
    ∀ l ∈ s.letters, ∀ k, l.origin.client = some k →
      ((∃ server peerId, l.place = .toClient server peerId) ∨ ∃ i, l.place = .fromMaster i) →
      BroughtHome S N past s l k := by
  refine ⟨?_,fun l hl k hk hplace => broughtHome_answer h hl hk hplace⟩
  have hstart : ∀ s, (postLts S N).init s → True ∧ s.hops ≤ 7 * s.started := by
    rintro s rfl
    exact ⟨trivial,Nat.le_refl 0⟩
  exact (Run.countSteps_le hstart (fun _ _ _ _ hst => ⟨trivial,hops_step hst⟩) h).2

theorem messages_settle_login : ∃ past s, Run (postLts pairSetup masterClient) past s ∧ s.started = 1 ∧
    Run.countSteps moves past s + s.hops ≤ 7 ∧ ∃ l ∈ s.letters, BroughtHome pairSetup masterClient past s l () := by
  have hr₀ : Run (postLts pairSetup masterClient) [] (PostState.start pairSetup) := Run.start rfl
  have hr₁ := hr₀.next (a := ())
    (@PostStep.request _ _ _ pairSetup masterClient _ () (Message.login "client") (Or.inl rfl) rfl)
  let origin : Origin Unit := { client := some (), number := 0 }
  let answer : Letter Unit Unit :=
    { origin := origin, place := .toClient none "client", msg := Message.resp (toString (2 : ℤ)) }
  obtain ⟨past,s,hr,hs,hl⟩ : ∃ past s, Run (postLts pairSetup masterClient) past s ∧ s.started = 1 ∧
      s.letters = [answer] := by
    refine ⟨_,_,hr₁.next (a := ()) (PostStep.handle .plain enumerates_values (List.Perm.refl _) rfl),rfl,?_⟩
    rfl
  have hmem : answer ∈ s.letters := by
    rw [hl]
    exact List.mem_singleton_self _
  obtain ⟨hmoves,hhome⟩ := messages_settle hr
  rw [hs] at hmoves
  exact ⟨past,s,hr,hs,hmoves,answer,hmem,hhome answer hmem () rfl (Or.inl ⟨none,"client",rfl⟩)⟩

end GameServer.Cluster
