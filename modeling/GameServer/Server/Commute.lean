import GameServer.Server.Hits

/-! # Writes between two ticks

Every request is handled by a task of its own, so the requests between two ticks may be
handled in any order. A request changes velocities or amounts, the hits of an area of
effect depend on positions only, and amounts are added. So any two requests can be
swapped, unless both steer the same user.
-/
namespace GameServer.Server
open Common CommonServer Library

/-- A request that changes users. -/
inductive Write
  | setVelocity (id : UserId) (velocity : Velocity)
  | aoe (id : UserId) (radius : ℚ) (money : UInt64)

namespace World

/-- Whom an area of effect hits, as far as positions tell. -/
def hits (w : World) (id : UserId) (radius : ℚ) (i : UserId) (u : User) : Bool :=
  match w.users.lookup id with
  | none => false
  | some user =>
    decide (radius ≤ w.maxAoeRadius ∧ i ≠ id ∧ inCircle user.position radius u.position)

end World

namespace Write

/-- The request as its task handles it; `order` enumerates the hits. -/
def run (overflow : Overflow) (order : HashMap UserId User → List User) (w : World) :
    Write → Outcome Panic World
  | setVelocity id velocity => Outcome.ok (w.setVelocity id velocity)
  | aoe id radius money => w.aoe overflow order id radius money

def effect (w : World) : Write → World
  | setVelocity id velocity => w.setVelocity id velocity
  | aoe id radius money => w.creditWhere (w.hits id radius) money

def Fits (w : World) : Write → Prop
  | setVelocity _ _ => True
  | aoe id radius money => ∀ tag i u, userAt w.maps tag i = some u → w.hits id radius i u = true →
      u.money.toNat + money.toNat < 2 ^ 64

/-- The user whose velocity the request sets. -/
def steered : Write → Option UserId
  | setVelocity id _ => some id
  | aoe _ _ _ => none

def Independent (x y : Write) : Prop := ∀ id ∈ x.steered, ∀ id' ∈ y.steered, id ≠ id'

end Write

section
variable {w : World} {id : UserId} {radius : ℚ} {money : UInt64}

theorem hits_setVelocity (w : World) (j : UserId) (velocity : Velocity) :
    (w.setVelocity j velocity).hits = w.hits := by
  have hradius : (w.setVelocity j velocity).maxAoeRadius = w.maxAoeRadius := by
    unfold World.setVelocity
    cases w.users.lookup j <;> rfl
  funext id radius i u
  unfold World.hits
  rw [lookup_setVelocity, hradius]
  cases w.users.lookup id with
  | none => rfl
  | some user =>
    have hpos : (if id = j then { user with velocity := velocity } else user).position = user.position := by
      split <;> rfl
    simp only [Option.map_some, hpos]

theorem hits_congr {i : UserId} {u u' : User} (h : u.position = u'.position) :
    w.hits id radius i u = w.hits id radius i u' := by
  unfold World.hits
  rw [h]

theorem userAt_setVelocity_eq (h : w.Settled) (j : UserId) (velocity : Velocity) (tag : MapTag)
    (i : UserId) : userAt (w.setVelocity j velocity).maps tag i =
      (userAt w.maps tag i).map (fun u => if i = j then { u with velocity := velocity } else u) := by
  unfold World.setVelocity
  by_cases hi : i = j
  · subst hi
    simp only [if_true]
    cases hu : userAt w.maps tag i with
    | none =>
      cases hv : w.users.lookup i with
      | none => exact hu
      | some v =>
        dsimp only
        rw [userAt_adjustUser, hu]
        split <;> rfl
    | some u =>
      obtain ⟨v,hv,-⟩ := h.agree tag i u hu
      rw [hv]
      dsimp only
      rw [userAt_adjustUser, if_pos ⟨(h.tag_of_user hu hv).symm,rfl⟩, hu]
  · simp only [if_neg hi, Option.map_id']
    cases w.users.lookup j with
    | none => rfl
    | some v =>
      dsimp only
      rw [userAt_adjustUser, if_neg (fun hc => hi hc.2)]

/-- An area of effect whose amounts fit, or wrap around, is one write to the users it hits. -/
theorem aoe_eq_write (h : w.Settled) (overflow : Overflow)
    {order : HashMap UserId User → List User} (ho : Enumerates order)
    (hfits : overflow = .wraps ∨ (Write.aoe id radius money).Fits w) :
    w.aoe overflow order id radius money = Outcome.ok (w.creditWhere (w.hits id radius) money) := by
  by_cases hself : w.users.lookup id = none ∨ w.maxAoeRadius < radius
  · rw [aoe_eq_self overflow order hself, creditWhere_of_none]
    intro tag i u _
    unfold World.hits
    rcases hself with hnone | hr
    · rw [hnone]
    · cases w.users.lookup id with
      | none => rfl
      | some user => exact decide_eq_false (fun hc => absurd hc.1 (not_le.mpr hr))
  · obtain ⟨hsome,hr⟩ := not_or.mp hself
    obtain ⟨user,hu⟩ := Option.ne_none_iff_exists'.mp hsome
    have hcredits : overflow = .wraps ∨ w.CreditsFit id radius money := by
      refine hfits.imp_right ?_
      intro hfits user' hu' tag i u hat hne hc
      apply hfits tag i u hat
      unfold World.hits
      rw [hu']
      exact decide_eq_true ⟨not_lt.mp hr,hne,hc⟩
    rw [aoe_eq_creditHits h overflow ho hu (not_lt.mp hr) hcredits]
    congr 1
    apply creditWhere_congr
    intro tag i u _
    unfold World.hits
    rw [hu]
    exact decide_eq_decide.mpr ⟨fun hc => ⟨not_lt.mp hr,hc⟩,fun hc => hc.2⟩

theorem aoe_eq_creditWhere (h : w.Settled) (overflow : Overflow)
    {order : HashMap UserId User → List User} (ho : Enumerates order)
    (hfits : (Write.aoe id radius money).Fits w) :
    w.aoe overflow order id radius money = Outcome.ok (w.creditWhere (w.hits id radius) money) :=
  aoe_eq_write h overflow ho (Or.inr hfits)

theorem run_eq_effect (h : w.Settled) (overflow : Overflow) {order : HashMap UserId User → List User}
    (ho : Enumerates order) {x : Write} (hf : x.Fits w) :
    x.run overflow order w = Outcome.ok (x.effect w) := by
  cases x with
  | setVelocity id velocity => rfl
  | aoe id radius money => exact aoe_eq_creditWhere h overflow ho hf

theorem settled_effect (h : w.Settled) {x : Write} (hf : x.Fits w) : (x.effect w).Settled := by
  cases x with
  | setVelocity id velocity => exact settled_setVelocity h id velocity
  | aoe id radius money =>
    have hc := credited_aoe .panics AList.values w id radius money
    rw [aoe_eq_creditWhere h .panics enumerates_values hf] at hc
    exact settled_of_credited h hc

/-! ## Swapping two requests -/

theorem setVelocity_comm {j : UserId} (hne : id ≠ j) (v v' : Velocity) :
    (w.setVelocity id v).setVelocity j v' = (w.setVelocity j v').setVelocity id v := by
  have huser : ∀ {i i' : UserId} {f g : User → User} (m : Map), i ≠ i' →
      (m.adjustUser i f).adjustUser i' g = (m.adjustUser i' g).adjustUser i f := by
    intro i i' f g m hi
    unfold Map.adjustUser
    dsimp only
    rw [AList.adjust_comm (fun he => absurd he hi)]
  unfold World.setVelocity
  cases hi : w.users.lookup id with
  | none =>
    cases hj : w.users.lookup j with
    | none => simp only [hi]
    | some u =>
      simp only [AList.lookup_adjust, if_neg hne, hi]
  | some u =>
    cases hj : w.users.lookup j with
    | none => simp only [AList.lookup_adjust, if_neg hne.symm, hi, hj]
    | some u' =>
      simp only [AList.lookup_adjust, if_neg hne, if_neg hne.symm, hi, hj]
      rw [AList.adjust_comm (fun he => absurd he hne),
        AList.adjust_comm (fun _ m => huser m hne)]

theorem creditIf_comm {p q : UserId → User → Bool} {a b : UInt64}
    (hp : ∀ i u m, p i { u with money := m } = p i u) (hq : ∀ i u m, q i { u with money := m } = q i u)
    (i : UserId) (u : User) :
    creditIf q b i (creditIf p a i u) = creditIf p a i (creditIf q b i u) := by
  unfold creditIf
  by_cases hpu : p i u = true
  · by_cases hqu : q i u = true
    · have hadd : u.money + a + b = u.money + b + a := by
        rw [UInt64.add_assoc, UInt64.add_comm a, ← UInt64.add_assoc]
      simp only [hp, hq, hpu, hqu, if_true, hadd]
    · simp only [hq, hpu, if_true, if_neg hqu]
  · by_cases hqu : q i u = true
    · simp only [hp, hqu, if_true, if_neg hpu]
    · simp only [if_neg hpu, if_neg hqu]

theorem creditWhere_comm {p q : UserId → User → Bool} {a b : UInt64}
    (hp : ∀ i u m, p i { u with money := m } = p i u) (hq : ∀ i u m, q i { u with money := m } = q i u) :
    (w.creditWhere p a).creditWhere q b = (w.creditWhere q b).creditWhere p a := by
  unfold World.creditWhere
  dsimp only
  rw [AList.mapVal_comm]
  intro tag map
  unfold Map.creditWhere
  dsimp only
  rw [AList.mapVal_comm (creditIf_comm hp hq)]

theorem setVelocity_creditWhere {p : UserId → User → Bool} {a : UInt64}
    (hp : ∀ i u v, p i { u with velocity := v } = p i u) (v : Velocity) :
    (w.creditWhere p a).setVelocity id v = (w.setVelocity id v).creditWhere p a := by
  unfold World.setVelocity World.creditWhere
  cases w.users.lookup id with
  | none => rfl
  | some user =>
    dsimp only
    rw [AList.mapVal_adjust]
    intro map
    unfold Map.creditWhere Map.adjustUser
    dsimp only
    rw [AList.mapVal_adjust]
    intro u
    unfold creditIf
    rw [hp]
    split <;> rfl

theorem fits_setVelocity (h : w.Settled) (j : UserId) (velocity : Velocity) :
    (Write.aoe id radius money).Fits (w.setVelocity j velocity) ↔ (Write.aoe id radius money).Fits w := by
  have hsame : ∀ (i : UserId) (u : User),
      (if i = j then { u with velocity := velocity } else u).position = u.position ∧
      (if i = j then { u with velocity := velocity } else u).money = u.money := by
    intro i u
    split <;> exact ⟨rfl,rfl⟩
  simp only [Write.Fits, hits_setVelocity, userAt_setVelocity_eq h]
  constructor
  · intro hf tag i u hu hhit
    obtain ⟨hpos,hmoney⟩ := hsame i u
    rw [← hmoney]
    exact hf tag i _ (by rw [hu]; rfl) ((hits_congr hpos).trans hhit)
  · intro hf tag i u' hu' hhit
    obtain ⟨u,hu,rfl⟩ := Option.map_eq_some_iff.mp hu'
    obtain ⟨hpos,hmoney⟩ := hsame i u
    rw [hmoney]
    exact hf tag i u hu ((hits_congr hpos.symm).trans hhit)

theorem position_creditIf (p : UserId → User → Bool) (i : UserId) (u : User) :
    (creditIf p money i u).position = u.position := by
  unfold creditIf
  split <;> rfl

theorem money_creditIf {p : UserId → User → Bool} {i : UserId} {u : User}
    (hf : p i u = true → u.money.toNat + money.toNat < 2 ^ 64) :
    (creditIf p money i u).money.toNat = u.money.toNat + if p i u = true then money.toNat else 0 := by
  unfold creditIf
  split
  · rename_i hp
    rw [UInt64.toNat_add, Nat.mod_eq_of_lt (hf hp)]
  · rfl

/-- Where two areas of effect fit one after the other, they fit the other way round. -/
theorem fits_creditWhere_swap {id' : UserId} {radius' : ℚ} {money' : UInt64}
    (hx : (Write.aoe id radius money).Fits w)
    (hy : (Write.aoe id' radius' money').Fits (w.creditWhere (w.hits id radius) money)) :
    (Write.aoe id' radius' money').Fits w ∧
      (Write.aoe id radius money).Fits (w.creditWhere (w.hits id' radius') money') := by
  have hboth : ∀ tag i u, userAt w.maps tag i = some u → w.hits id' radius' i u = true →
      (u.money.toNat + if w.hits id radius i u = true then money.toNat else 0) + money'.toNat < 2 ^ 64 := by
    intro tag i u hu hhit
    rw [← money_creditIf (hx tag i u hu)]
    apply hy tag i _ (by rw [userAt_creditWhere, hu]; rfl)
    exact (hits_congr (position_creditIf _ i u)).trans hhit
  have hfirst : (Write.aoe id' radius' money').Fits w := by
    intro tag i u hu hhit
    have hb := hboth tag i u hu hhit
    omega
  refine ⟨hfirst,?_⟩
  intro tag i u' hu' hhit
  rw [userAt_creditWhere] at hu'
  obtain ⟨u,hu,rfl⟩ := Option.map_eq_some_iff.mp hu'
  have hhit : w.hits id radius i u = true := (hits_congr (position_creditIf _ i u)).symm.trans hhit
  rw [money_creditIf (hfirst tag i u hu)]
  split
  · rename_i hhit'
    have hb := hboth tag i u hu hhit'
    rw [if_pos hhit] at hb
    omega
  · exact hx tag i u hu hhit

/-- Any two requests that do not steer the same user can be swapped. -/
theorem effect_comm (h : w.Settled) {x y : Write} (hi : x.Independent y) (hx : x.Fits w)
    (hy : y.Fits (x.effect w)) :
    y.Fits w ∧ x.Fits (y.effect w) ∧ x.effect (y.effect w) = y.effect (x.effect w) := by
  cases x with
  | setVelocity id v =>
    cases y with
    | setVelocity j v' => exact ⟨trivial,trivial,setVelocity_comm (hi id rfl j rfl).symm v' v⟩
    | aoe j radius money =>
      refine ⟨(fits_setVelocity h id v).mp hy,trivial,?_⟩
      simp only [Write.effect, hits_setVelocity]
      exact setVelocity_creditWhere (fun _ _ _ => hits_congr rfl) v
  | aoe id radius money =>
    cases y with
    | setVelocity j v =>
      refine ⟨trivial,(fits_setVelocity h j v).mpr hx,?_⟩
      simp only [Write.effect, hits_setVelocity]
      exact (setVelocity_creditWhere (fun _ _ _ => hits_congr rfl) v).symm
    | aoe j radius' money' =>
      obtain ⟨hy',hx'⟩ := fits_creditWhere_swap hx hy
      exact ⟨hy',hx',creditWhere_comm (fun _ _ _ => hits_congr rfl) (fun _ _ _ => hits_congr rfl)⟩

end

/-! ## Batches -/

/-- A request together with the order in which its task meets the hits. -/
structure IssuedWrite where
  write : Write
  order : HashMap UserId User → List User
  enumerates : Enumerates order

namespace World

def writeAll (overflow : Overflow) (w : World) (batch : List IssuedWrite) : World :=
  batch.foldl (fun w x => (x.write.run overflow x.order w).state) w

def BatchFits (overflow : Overflow) : World → List IssuedWrite → Prop :=
  Run.Allowed (fun w x => (x.write.run overflow x.order w).state) (fun w x => x.write.Fits w)

end World

theorem batchFits_iff {overflow : Overflow} {w : World} (h : w.Settled) (batch : List IssuedWrite) :
    w.BatchFits overflow batch ↔
      Run.Allowed Write.effect Write.Fits w (batch.map IssuedWrite.write) := by
  induction batch generalizing w with
  | nil => exact Iff.rfl
  | cons x batch ih =>
    apply and_congr_right
    intro hf
    have hrun := run_eq_effect h overflow x.enumerates hf
    dsimp only
    rw [hrun]
    exact ih (settled_effect h hf)

theorem writeAll_eq {overflow : Overflow} {w : World} (h : w.Settled) {batch : List IssuedWrite}
    (hf : w.BatchFits overflow batch) :
    w.writeAll overflow batch = (batch.map IssuedWrite.write).foldl Write.effect w := by
  induction batch generalizing w with
  | nil => rfl
  | cons x batch ih =>
    obtain ⟨hx,hrest⟩ := hf
    have hrun := run_eq_effect h overflow x.enumerates hx
    dsimp only at hrest
    rw [hrun] at hrest
    have htail := ih (settled_effect h hx) hrest
    unfold World.writeAll at htail ⊢
    rw [List.foldl_cons, hrun]
    exact htail

/-- Writes between two ticks commute: in every reachable world, a batch without overflow that
steers no user twice leads to the same maps and the same index in every order of its requests,
whatever orders the tasks meet their hits in. -/
theorem writes_commute {overflow : Overflow} {conf : GameServerConf} {w : World}
    (h : (worldLts overflow conf).Reachable w) {batch batch' : List IssuedWrite}
    (hp : (batch.map IssuedWrite.write).Perm (batch'.map IssuedWrite.write))
    (hone : ((batch.map IssuedWrite.write).filterMap Write.steered).Nodup)
    (hf : w.BatchFits overflow batch) :
    w.BatchFits overflow batch' ∧ (w.writeAll overflow batch').maps = (w.writeAll overflow batch).maps ∧
      (w.writeAll overflow batch').users = (w.writeAll overflow batch).users := by
  have hs := (valid_of_reachable h).toSettled
  have hindep : (batch.map IssuedWrite.write).Pairwise Write.Independent := List.pairwise_filterMap.mp hone
  have hsettled : ∀ w (x : Write), w.Settled → x.Fits w → (x.effect w).Settled :=
    fun w x hw hx => settled_effect hw hx
  have hsymm : ∀ {x y : Write}, x.Independent y → y.Independent x :=
    fun hxy id hid id' hid' he => hxy id' hid' id hid he.symm
  obtain ⟨hall,heq⟩ := Run.Allowed.perm hsettled hsymm
    (fun w x y hw hi hx hy => effect_comm hw hi hx hy) hp hs hindep ((batchFits_iff hs batch).mp hf)
  have hf' : w.BatchFits overflow batch' := (batchFits_iff hs batch').mpr hall
  rw [writeAll_eq hs hf, writeAll_eq hs hf', heq]
  exact ⟨hf',rfl,rfl⟩

def neighbourWrites : List IssuedWrite :=
  [⟨.setVelocity 1 (Velocity.new (Vector2.new 1 0) 3),AList.values,enumerates_values⟩,
    ⟨.aoe 1 10 100,AList.values,enumerates_values⟩]

theorem neighbourWrites_fit (overflow : Overflow) : neighbours.BatchFits overflow neighbourWrites := by
  have hs := (valid_of_reachable (reachable_neighbours overflow)).toSettled
  refine (batchFits_iff hs _).mpr ⟨trivial,?_,trivial⟩
  refine (fits_setVelocity hs 1 _).mpr ?_
  intro tag i u hu hhit
  have hhit : (decide _ : Bool) = true := hhit
  have hc := of_decide_eq_true hhit
  exact creditsFit_neighbours (User.randomWithoutVelocity 1 (Vector2.new 5 7)) (by rfl) tag i u hu
    hc.2.1 hc.2.2

theorem writes_commute_neighbours :
    (neighbours.writeAll .panics neighbourWrites.reverse).users =
      (neighbours.writeAll .panics neighbourWrites).users := by
  have hp : (neighbourWrites.map IssuedWrite.write).Perm (neighbourWrites.reverse.map IssuedWrite.write) := by
    rw [List.map_reverse]
    exact (List.reverse_perm _).symm
  exact (writes_commute (reachable_neighbours .panics) hp (by decide) (neighbourWrites_fit .panics)).2.2

end GameServer.Server
