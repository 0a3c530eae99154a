import GameServer.Server.Cover

/-! # Whom an area of effect hits

An area of effect queries the square around its circle, filters by distance and
credits each hit through the cell of its position. On a settled world this comes
to one write: every stored entry in the circle but the initiator's is credited once.
-/
namespace GameServer.Server
open Common CommonServer Library

/-- A user credited once, if it meets a condition. -/
def creditIf (p : UserId → User → Bool) (money : UInt64) (id : UserId) (u : User) : User :=
  if p id u then { u with money := u.money + money } else u

def Map.creditWhere (p : UserId → User → Bool) (money : UInt64) (map : Map) : Map :=
  { map with scenes := { users := map.scenes.users.mapVal (creditIf p money) } }

namespace World

/-- Credit the entries of the scenes that meet a condition, and change nothing else. -/
def creditWhere (w : World) (p : UserId → User → Bool) (money : UInt64) : World :=
  { w with maps := w.maps.mapVal (fun _ map => map.creditWhere p money) }

/-- What an area of effect is for: everyone in the circle but its initiator is credited. -/
def creditHits (w : World) (id : UserId) (center : Vector2) (radius : ℚ) (money : UInt64) : World :=
  w.creditWhere (fun i u => decide (i ≠ id ∧ inCircle center radius u.position)) money

end World

section
variable {w : World} {p q : UserId → User → Bool} {money : UInt64}

theorem userAt_creditWhere (tag : MapTag) (id : UserId) :
    userAt (w.creditWhere p money).maps tag id = (userAt w.maps tag id).map (creditIf p money id) := by
  unfold userAt World.creditWhere
  rw [AList.lookup_mapVal]
  cases w.maps.lookup tag with
  | none => rfl
  | some map => exact AList.lookup_mapVal _ _ _

theorem creditIf_congr {id : UserId} {u : User} (h : p id u = q id u) :
    creditIf p money id u = creditIf q money id u := by
  unfold creditIf
  rw [h]

theorem creditWhere_congr
    (h : ∀ tag id u, userAt w.maps tag id = some u → p id u = q id u) :
    w.creditWhere p money = w.creditWhere q money := by
  unfold World.creditWhere
  congr 1
  apply AList.mapVal_congr
  intro tag map hm
  unfold Map.creditWhere
  congr 2
  apply AList.mapVal_congr
  intro id u hu
  exact creditIf_congr (h tag id u ((userAt_of_lookup hm id).trans hu))

theorem creditWhere_of_none
    (h : ∀ tag id u, userAt w.maps tag id = some u → p id u = false) : w.creditWhere p money = w := by
  have hmaps : w.maps.mapVal (fun _ map => map.creditWhere p money) = w.maps := by
    apply AList.mapVal_eq_self
    intro tag map hm
    have husers : map.scenes.users.mapVal (creditIf p money) = map.scenes.users := by
      apply AList.mapVal_eq_self
      intro id u hu
      unfold creditIf
      rw [h tag id u ((userAt_of_lookup hm id).trans hu)]
      rfl
    unfold Map.creditWhere
    rw [husers]
  unfold World.creditWhere
  rw [hmaps]

theorem addMoney_of_fits {overflow : Overflow} {a b : UInt64}
    (h : overflow = .wraps ∨ a.toNat + b.toNat < 2 ^ 64) : addMoney overflow a b = some (a + b) := by
  cases overflow with
  | panics => exact if_pos (h.resolve_left (fun he => by cases he))
  | wraps => rfl

/-- One turn of the crediting loop: the entry of the hit, and no other, is credited. -/
theorem credit_creditWhere (h : w.Settled) {overflow : Overflow} {tag : MapTag} {u : User}
    (hu : userAt w.maps tag u.id = some u) (hp : p u.id u = false)
    (hfits : overflow = .wraps ∨ u.money.toNat + money.toNat < 2 ^ 64) :
    World.credit overflow money (w.creditWhere p money) u =
      Outcome.ok (w.creditWhere (fun i v => p i v || decide (i = u.id)) money) := by
  have htag : pos2mapTag (w.creditWhere p money).areaLen u.position = tag :=
    (congrArg (fun n => pos2mapTag n u.position) h.area).trans (h.placed tag u.id u hu)
  have hat : userAt (w.creditWhere p money).maps tag u.id = some u := by
    rw [userAt_creditWhere, hu, Option.map_some]
    simp [creditIf, hp]
  rcases credit_cases overflow money (w.creditWhere p money) u with
    ⟨hn,-⟩ | ⟨v,hv,ha,-⟩ | ⟨v,total,hv,ha,he⟩
  · rw [htag, hat] at hn
    cases hn
  · rw [htag, hat] at hv
    obtain rfl := Option.some.inj hv
    rw [addMoney_of_fits hfits] at ha
    cases ha
  · rw [htag, hat] at hv
    obtain rfl := Option.some.inj hv
    rw [addMoney_of_fits hfits] at ha
    obtain rfl := Option.some.inj ha
    rw [he, htag]
    congr 1
    unfold World.creditWhere AList.adjust
    dsimp only
    rw [AList.mapVal_mapVal]
    congr 1
    apply AList.mapVal_congr
    intro tag' map hm
    have husers : ∀ i v, map.scenes.users.lookup i = some v → i = u.id → tag' = tag ∧ v = u := by
      rintro i v hv rfl
      have hat' : userAt w.maps tag' u.id = some v := (userAt_of_lookup hm _).trans hv
      exact ⟨h.unique hat' hu,h.unique_user hat' hu⟩
    by_cases ht : tag' = tag
    · rw [if_pos ht]
      unfold Map.adjustUser Map.creditWhere AList.adjust
      dsimp only
      congr 2
      rw [AList.mapVal_mapVal]
      apply AList.mapVal_congr
      intro i v hv
      by_cases hi : i = u.id
      · obtain ⟨-,rfl⟩ := husers i v hv hi
        subst hi
        simp [creditIf, hp]
      · simp [creditIf, hi]
    · rw [if_neg ht]
      unfold Map.creditWhere
      congr 2
      apply AList.mapVal_congr
      intro i v hv
      have hi : i ≠ u.id := fun hi => ht (husers i v hv hi).1
      simp [creditIf, hi]

/-- The crediting loop over distinct hits credits each of them once, in whatever order. -/
theorem forEach_credit (h : w.Settled) {overflow : Overflow} {l : List User}
    (hstored : ∀ u ∈ l, ∃ tag, userAt w.maps tag u.id = some u)
    (hfits : ∀ u ∈ l, overflow = .wraps ∨ u.money.toNat + money.toNat < 2 ^ 64)
    (hnodup : (l.map User.id).Nodup)
    (hp : ∀ u ∈ l, p u.id u = false) :
    Outcome.forEach (World.credit overflow money) (w.creditWhere p money) l =
      Outcome.ok (w.creditWhere (fun i v => p i v || decide (i ∈ l.map User.id)) money) := by
  induction l generalizing p with
  | nil => simp
  | cons u l ih =>
    obtain ⟨⟨tag,hu⟩,hstored⟩ := List.forall_mem_cons.mp hstored
    obtain ⟨hfit,hfits⟩ := List.forall_mem_cons.mp hfits
    obtain ⟨hpu,hp⟩ := List.forall_mem_cons.mp hp
    obtain ⟨hnew,hnodup⟩ := List.nodup_cons.mp hnodup
    have hp' : ∀ v ∈ l, (p v.id v || decide (v.id = u.id)) = false := by
      intro v hv
      have hne : v.id ≠ u.id := fun he => hnew (he ▸ List.mem_map_of_mem hv)
      simp [hp v hv, hne]
    rw [Outcome.forEach_cons, credit_creditWhere h hu hpu hfit, Outcome.ok_andThen,
      ih hstored hfits hnodup hp']
    congr 1
    apply creditWhere_congr
    intro tag' i v _
    by_cases hi : i = u.id
    · simp [hi]
    · simp [hi]

/-! ## The hits -/

theorem inScope_of_inCircle {center p : Vector2} {radius : ℚ} (h : World.inCircle center radius p) :
    InScope { leftUp := { x := center.x - radius, y := center.y + radius }
              rightDown := { x := center.x + radius, y := center.y - radius } } p := by
  obtain ⟨hr,hd⟩ := h
  have hx : |p.x - center.x| ≤ radius :=
    abs_le_of_sq_le_sq (le_trans (le_add_of_nonneg_right (sq_nonneg _)) hd) hr
  have hy : |p.y - center.y| ≤ radius :=
    abs_le_of_sq_le_sq (le_trans (le_add_of_nonneg_left (sq_nonneg _)) hd) hr
  rw [abs_le] at hx hy
  refine ⟨?_,?_,?_,?_⟩ <;> dsimp only <;> linarith

theorem lookup_queryByCircleScope (ha : w.areaLen = areaLength) (h : Placed w.maps) {center : Vector2}
    {radius : ℚ} {id : UserId} {u : User} :
    (w.queryByCircleScope center radius).lookup id = some u ↔
      id = u.id ∧ (∃ tag, userAt w.maps tag u.id = some u) ∧
        World.inCircle center radius u.position := by
  have hstored : ∀ {v : User}, (∃ tag i, userAt w.maps tag i = some v) →
      ∃ tag, userAt w.maps tag v.id = some v := by
    rintro v ⟨tag,i,hv⟩
    exact ⟨tag,(h.ids tag i v hv).symm ▸ hv⟩
  unfold World.queryByCircleScope
  dsimp only
  constructor
  · intro hl
    rcases AList.lookup_foldl_insert_key_some User.id hl with ⟨hmem,rfl⟩ | hempty
    · obtain ⟨hq,hc⟩ := List.mem_filter.mp hmem
      exact ⟨rfl,hstored ((mem_query ha h).mp hq).1,of_decide_eq_true hc⟩
    · cases hempty
  · rintro ⟨rfl,⟨tag,hu⟩,hc⟩
    apply AList.lookup_foldl_insert_key User.id
    · intro v hv v' hv' hid
      obtain ⟨t,hvt⟩ := hstored ((mem_query ha h).mp (List.mem_filter.mp hv).1).1
      obtain ⟨t',hvt'⟩ := hstored ((mem_query ha h).mp (List.mem_filter.mp hv').1).1
      rw [← hid] at hvt'
      have ht := h.unique t t' _ _ _ hvt hvt'
      subst ht
      exact Option.some.inj (hvt.symm.trans hvt')
    · refine List.mem_filter.mpr ⟨(mem_query ha h).mpr ⟨⟨tag,u.id,hu⟩,inScope_of_inCircle hc⟩,?_⟩
      exact decide_eq_true hc

theorem mem_aoeTargets (ha : w.areaLen = areaLength) (h : Placed w.maps) {user u : User} {id : UserId}
    {radius : ℚ} : u ∈ (w.aoeTargets user id radius).values ↔
      (∃ tag, userAt w.maps tag u.id = some u) ∧ u.id ≠ id ∧
        World.inCircle user.position radius u.position := by
  rw [AList.mem_values_iff]
  unfold World.aoeTargets
  constructor
  · rintro ⟨k,hk⟩
    obtain ⟨hne,hk⟩ := AList.lookup_of_lookup_erase hk
    obtain ⟨rfl,hu,hc⟩ := (lookup_queryByCircleScope ha h).mp hk
    exact ⟨hu,hne,hc⟩
  · rintro ⟨hu,hne,hc⟩
    refine ⟨u.id,?_⟩
    rw [AList.lookup_erase_eq, if_neg hne]
    exact (lookup_queryByCircleScope ha h).mpr ⟨rfl,hu,hc⟩

theorem nodup_aoeTargets (ha : w.areaLen = areaLength) (h : Placed w.maps) (user : User) (id : UserId)
    (radius : ℚ) : ((w.aoeTargets user id radius).values.map User.id).Nodup := by
  have hkeys : (w.aoeTargets user id radius).values.map User.id = (w.aoeTargets user id radius).keys := by
    unfold AList.values AList.keys List.keys
    rw [List.map_map]
    apply List.map_congr_left
    rintro ⟨k,u⟩ he
    have hk := AList.mem_entries_iff.mp he
    unfold World.aoeTargets at hk
    exact ((lookup_queryByCircleScope ha h).mp (AList.lookup_of_lookup_erase hk).2).1.symm
  rw [hkeys]
  exact AList.keys_nodup _

def World.CreditsFit (w : World) (id : UserId) (radius : ℚ) (money : UInt64) : Prop :=
  ∀ user, w.users.lookup id = some user → ∀ tag i u, userAt w.maps tag i = some u → i ≠ id →
    World.inCircle user.position radius u.position → u.money.toNat + money.toNat < 2 ^ 64

theorem creditsFit_of_values {w : World} {id : UserId} {radius : ℚ} {money : UInt64}
    (h : ∀ map ∈ w.maps.values, ∀ u ∈ map.scenes.users.values, u.money.toNat + money.toNat < 2 ^ 64) :
    w.CreditsFit id radius money := by
  intro user _ tag i u hu _ _
  obtain ⟨map,hm,hl⟩ := Option.bind_eq_some_iff.mp hu
  exact h map (AList.mem_values_iff.mpr ⟨tag,hm⟩) u (AList.mem_values_iff.mpr ⟨i,hl⟩)

/-- An area of effect comes to one write, whatever the order of its hits. -/
theorem aoe_eq_creditHits (h : w.Settled) (overflow : Overflow) {order : HashMap UserId User → List User}
    (ho : Enumerates order) {id : UserId} {radius : ℚ} {user : User} (hu : w.users.lookup id = some user)
    (hr : radius ≤ w.maxAoeRadius) (hfits : overflow = .wraps ∨ w.CreditsFit id radius money) :
    w.aoe overflow order id radius money = Outcome.ok (w.creditHits id user.position radius money) := by
  have hperm := ho (w.aoeTargets user id radius)
  have hmem : ∀ u, u ∈ order (w.aoeTargets user id radius) ↔
      (∃ tag, userAt w.maps tag u.id = some u) ∧ u.id ≠ id ∧
        World.inCircle user.position radius u.position := fun u =>
    hperm.mem_iff.trans (mem_aoeTargets h.area h.placedMaps)
  have hstart : w.creditWhere (fun _ _ => false) money = w := creditWhere_of_none (fun _ _ _ _ => rfl)
  have hfit : ∀ v ∈ order (w.aoeTargets user id radius),
      overflow = .wraps ∨ v.money.toNat + money.toNat < 2 ^ 64 := by
    intro v hv
    obtain ⟨⟨tag,hat⟩,hne,hc⟩ := (hmem v).mp hv
    exact hfits.imp_right (fun hf => hf user hu tag v.id v hat hne hc)
  have hloop : Outcome.forEach (World.credit overflow money) (w.creditWhere (fun _ _ => false) money)
      (order (w.aoeTargets user id radius)) = Outcome.ok (w.creditWhere
        (fun i _ => false || decide (i ∈ (order (w.aoeTargets user id radius)).map User.id)) money) :=
    forEach_credit h (fun u hu => ((hmem u).mp hu).1) hfit
      ((hperm.map User.id).nodup_iff.mpr (nodup_aoeTargets h.area h.placedMaps user id radius))
      (fun _ _ => rfl)
  rw [hstart] at hloop
  unfold World.aoe
  rw [if_neg (not_lt.mpr hr), hu]
  dsimp only
  rw [hloop]
  congr 1
  apply creditWhere_congr
  intro tag i v hv
  have hid := h.ids tag i v hv
  have hiff : i ∈ (order (w.aoeTargets user id radius)).map User.id ↔
      i ≠ id ∧ World.inCircle user.position radius v.position := by
    rw [List.mem_map]
    constructor
    · rintro ⟨u,hmu,rfl⟩
      obtain ⟨⟨t,hat⟩,hne,hc⟩ := (hmem u).mp hmu
      rw [h.unique_user hv hat]
      exact ⟨hne,hc⟩
    · rintro ⟨hne,hc⟩
      subst hid
      exact ⟨v,(hmem v).mpr ⟨⟨tag,hv⟩,hne,hc⟩,rfl⟩
  rw [Bool.false_or]
  exact decide_eq_decide.mpr hiff

theorem aoe_eq_self (overflow : Overflow) (order : HashMap UserId User → List User) {id : UserId}
    {radius : ℚ} (h : w.users.lookup id = none ∨ w.maxAoeRadius < radius) :
    w.aoe overflow order id radius money = Outcome.ok w := by
  unfold World.aoe
  split
  · rfl
  · rename_i hr
    rw [h.resolve_right hr]

/-- After a tick the index carries exactly the entries of the scenes. -/
theorem users_update (h : w.Settled) (id : UserId) (u : User) :
    w.update.state.users.lookup id = some u ↔ ∃ tag, userAt w.update.state.maps tag id = some u := by
  rw [h.update_eq]
  exact h.lookup_collectUsers_moved

end

/-- In every reachable world an area of effect credits once every entry of the scenes in its
circle but the initiator's, and changes nothing else; without an initiator or with too
large a radius it changes nothing. The next tick carries the amounts to the index. -/
theorem aoe_hits_circle {overflow : Overflow} {conf : GameServerConf} {w : World}
    (h : (worldLts overflow conf).Reachable w) {order : HashMap UserId User → List User}
    (ho : Enumerates order) {id : UserId} {radius : ℚ} {money : UInt64} :
    (∀ user, w.users.lookup id = some user → radius ≤ w.maxAoeRadius → w.CreditsFit id radius money →
      w.aoe overflow order id radius money =
        Outcome.ok (w.creditHits id user.position radius money) ∧
      ∀ tag i, userAt (w.creditHits id user.position radius money).maps tag i =
        (userAt w.maps tag i).map (fun u => if i ≠ id ∧ World.inCircle user.position radius u.position
          then { u with money := u.money + money } else u)) ∧
    (w.users.lookup id = none ∨ w.maxAoeRadius < radius →
      w.aoe overflow order id radius money = Outcome.ok w) ∧
    ∀ s, (worldLts overflow conf).Reachable s → ∀ i u,
      s.update.state.users.lookup i = some u ↔ ∃ tag, userAt s.update.state.maps tag i = some u := by
  have hv := valid_of_reachable h
  refine ⟨?_,?_,?_⟩
  · intro user hu hr hfits
    refine ⟨aoe_eq_creditHits hv.toSettled overflow ho hu hr (Or.inr hfits),?_⟩
    intro tag i
    unfold World.creditHits
    rw [userAt_creditWhere]
    congr 1
    funext u
    simp only [creditIf, decide_eq_true_eq]
  · exact aoe_eq_self overflow order
  · intro s hs
    exact users_update (valid_of_reachable hs).toSettled

def neighbours : World :=
  ((World.init .master).addUser (User.randomWithoutVelocity 1 (Vector2.new 5 7))).addUser
    (User.randomWithoutVelocity 2 (Vector2.new 6 8))

theorem fresh_second : ((World.init .master).addUser
    (User.randomWithoutVelocity 1 (Vector2.new 5 7))).Fresh 2 := by
  constructor
  · rw [lookup_addUser]
    rfl
  · intro tag
    rw [userAt_addUser, userAt_init]
    exact if_neg (fun hc => absurd hc.2.1 (by decide))

theorem reachable_neighbours (overflow : Overflow) : (worldLts overflow .master).Reachable neighbours := by
  obtain ⟨past,hrun⟩ := reachable_addUser_init overflow .master
    (User.randomWithoutVelocity 1 (Vector2.new 5 7)) (by decide)
  exact ⟨_,hrun.next (WorldStep.op (a := .addUser (User.randomWithoutVelocity 2 (Vector2.new 6 8)))
    ⟨fresh_second,by decide⟩)⟩

theorem creditsFit_neighbours : neighbours.CreditsFit 1 10 100 := by
  have hpoor : ∀ map ∈ neighbours.maps.values, ∀ u ∈ map.scenes.users.values,
      u.money.toNat + (100 : UInt64).toNat < 2 ^ 64 := by decide +kernel
  exact creditsFit_of_values hpoor

theorem aoe_hits_circle_neighbours :
    neighbours.aoe .panics AList.values 1 10 100 =
      Outcome.ok (neighbours.creditHits 1 (Vector2.new 5 7) 10 100) :=
  ((aoe_hits_circle (reachable_neighbours .panics) enumerates_values).1
    (User.randomWithoutVelocity 1 (Vector2.new 5 7)) (by rfl) (by decide +kernel) creditsFit_neighbours).1

end GameServer.Server
