import GameServer.Server.Hits

/-! # Worlds that hold the same users

Two worlds are alike if their scenes and their indexes hold the same users; the order
in which their hash maps enumerate them, the session table and the statistics may differ.
Every operation on users takes alike worlds to alike worlds and ends the same way.
-/
namespace GameServer.Server
open Common CommonServer Library

structure World.Alike (w v : World) : Prop where
  settled : w.Settled
  settled' : v.Settled
  tickTime : v.tickTime = w.tickTime
  maxAoeRadius : v.maxAoeRadius = w.maxAoeRadius
  maps : ∀ tag id, userAt v.maps tag id = userAt w.maps tag id
  users : ∀ id, v.users.lookup id = w.users.lookup id

/-- Two computations end the same way in alike worlds. -/
structure AlikeOutcomes (o p : Outcome Panic World) : Prop where
  state : o.state.Alike p.state
  panic : p.panic = o.panic

namespace World.Alike
variable {w v : World}

theorem ok (h : w.Alike v) : AlikeOutcomes (Outcome.ok w) (Outcome.ok v) := ⟨h,rfl⟩

theorem mem_iff (h : w.Alike v) (tag : MapTag) : tag ∈ v.maps ↔ tag ∈ w.maps :=
  (h.settled'.layout.keys tag).trans (h.settled.layout.keys tag).symm

theorem areaLen_eq (h : w.Alike v) : v.areaLen = w.areaLen := h.settled'.area.trans h.settled.area.symm

/-- The session tables play no part. -/
theorem clientMap (h : w.Alike v) (clientMap clientMap' : HashMap String UserId) :
    { w with clientMap := clientMap }.Alike { v with clientMap := clientMap' } where
  settled := settled_clientMap h.settled clientMap
  settled' := settled_clientMap h.settled' clientMap'
  tickTime := h.tickTime
  maxAoeRadius := h.maxAoeRadius
  maps := h.maps
  users := h.users

theorem same (h : w.Alike v) {w' v' : World} (hw : w.Same w') (hv : v.Same v') : w'.Alike v' where
  settled := settled_of_same h.settled hw
  settled' := settled_of_same h.settled' hv
  tickTime := by rw [hw.rest, hv.rest]; exact h.tickTime
  maxAoeRadius := by rw [hw.rest, hv.rest]; exact h.maxAoeRadius
  maps tag id := by rw [hv.userAt_eq, hw.userAt_eq, h.maps]
  users id := by rw [← hv.users id, ← hw.users id, h.users]

theorem fresh (h : w.Alike v) {id : UserId} (hf : w.Fresh id) : v.Fresh id :=
  ⟨(h.users id).trans hf.1,fun tag => (h.maps tag id).trans (hf.2 tag)⟩

theorem addUser (h : w.Alike v) {user : User} (hf : w.Fresh user.id) :
    (w.addUser user).Alike (v.addUser user) where
  settled := settled_addUser h.settled hf
  settled' := settled_addUser h.settled' (h.fresh hf)
  tickTime := h.tickTime
  maxAoeRadius := h.maxAoeRadius
  maps tag id := by simp only [userAt_addUser, h.areaLen_eq, h.mem_iff, h.maps]
  users id := by simp only [lookup_addUser, h.users]

theorem removeUser (h : w.Alike v) (id : UserId) : AlikeOutcomes (w.removeUser id) (v.removeUser id) := by
  have hset := settled_removeUser h.settled id
  have hset' := settled_removeUser h.settled' id
  have hu := h.users id
  rcases removeUser_cases w id with ⟨hl,he⟩ | ⟨x,hl,hm,he⟩ | ⟨x,hl,hm,he⟩
  · rw [hl] at hu
    have he' : v.removeUser id = Outcome.ok v := by
      unfold World.removeUser
      rw [hu]
    rw [he, he']
    exact h.ok
  · rw [hl] at hu
    have hm' : v.maps.lookup (pos2mapTag v.areaLen x.position) = none := by
      rw [AList.lookup_eq_none, h.mem_iff, h.areaLen_eq]
      exact hm
    have he' : v.removeUser id = Outcome.fail v .removeMapMissing := by
      unfold World.removeUser
      rw [hu]
      dsimp only
      rw [hm']
    rw [he, he']
    exact ⟨h,rfl⟩
  · rw [hl] at hu
    rcases removeUser_cases v id with ⟨hl',-⟩ | ⟨y,hl',hm',-⟩ | ⟨y,hl',-,he'⟩
    · rw [hu] at hl'
      cases hl'
    · rw [hu] at hl'
      obtain rfl := Option.some.inj hl'
      rw [h.mem_iff, h.areaLen_eq] at hm'
      exact absurd hm hm'
    · rw [hu] at hl'
      obtain rfl := Option.some.inj hl'
      rw [he] at hset ⊢
      rw [he'] at hset' ⊢
      refine Alike.ok ⟨hset,hset',h.tickTime,h.maxAoeRadius,?_,?_⟩
      · intro tag i
        simp only [userAt_removeUser, h.areaLen_eq, h.maps]
      · intro i
        simp only [AList.lookup_erase_eq, h.users]

theorem setVelocity (h : w.Alike v) (id : UserId) (velocity : Velocity) :
    (w.setVelocity id velocity).Alike (v.setVelocity id velocity) := by
  have hset := settled_setVelocity h.settled id velocity
  have hset' := settled_setVelocity h.settled' id velocity
  have hu := h.users id
  unfold World.setVelocity at hset hset' ⊢
  cases hl : w.users.lookup id with
  | none =>
    rw [hl] at hu
    rw [hu]
    exact h
  | some u =>
    rw [hl] at hu hset
    rw [hu] at hset' ⊢
    refine ⟨hset,hset',h.tickTime,h.maxAoeRadius,?_,?_⟩
    · intro tag i
      simp only [userAt_adjustUser, h.areaLen_eq, h.maps]
    · intro i
      simp only [AList.lookup_adjust, h.users]

theorem creditsFit (h : w.Alike v) {id : UserId} {radius : ℚ} {money : UInt64}
    (hf : w.CreditsFit id radius money) : v.CreditsFit id radius money := by
  intro user hu tag i u hat hne hc
  rw [h.users] at hu
  rw [h.maps] at hat
  exact hf user hu tag i u hat hne hc

/-- Where no credit overflows, the orders of the hits do not matter. -/
theorem aoe (h : w.Alike v) {overflow : Overflow} {order order' : HashMap UserId User → List User}
    (ho : Enumerates order) (ho' : Enumerates order') (id : UserId) (radius : ℚ) (money : UInt64)
    (hf : overflow = .wraps ∨ w.CreditsFit id radius money) :
    AlikeOutcomes (w.aoe overflow order id radius money) (v.aoe overflow order' id radius money) := by
  by_cases hself : w.users.lookup id = none ∨ w.maxAoeRadius < radius
  · have hself' : v.users.lookup id = none ∨ v.maxAoeRadius < radius := by
      rwa [h.users, h.maxAoeRadius]
    rw [aoe_eq_self overflow order hself, aoe_eq_self overflow order' hself']
    exact h.ok
  · obtain ⟨hsome,hr⟩ := not_or.mp hself
    obtain ⟨user,hu⟩ := Option.ne_none_iff_exists'.mp hsome
    have hu' : v.users.lookup id = some user := (h.users id).trans hu
    have hr' : radius ≤ v.maxAoeRadius := by
      rw [h.maxAoeRadius]
      exact not_lt.mp hr
    have he := aoe_eq_creditHits h.settled overflow ho hu (not_lt.mp hr) hf
    have he' := aoe_eq_creditHits h.settled' overflow ho' hu' hr' (hf.imp_right h.creditsFit)
    have hset := settled_of_credited h.settled (credited_aoe overflow order w id radius money)
    have hset' := settled_of_credited h.settled' (credited_aoe overflow order' v id radius money)
    rw [he] at hset ⊢
    rw [he'] at hset' ⊢
    refine Alike.ok ⟨hset,hset',h.tickTime,h.maxAoeRadius,?_,h.users⟩
    intro tag i
    simp only [World.creditHits, userAt_creditWhere, h.maps]

theorem update (h : w.Alike v) : AlikeOutcomes w.update v.update := by
  have hset := settled_update h.settled
  have hset' := settled_update h.settled'
  have hmaps : ∀ tag id, userAt v.movedMaps tag id = userAt w.movedMaps tag id := by
    intro tag id
    apply Option.ext
    intro u
    rw [h.settled'.userAt_movedMaps, h.settled.userAt_movedMaps]
    simp only [h.maps, h.tickTime]
  rw [h.settled.update_eq] at hset ⊢
  rw [h.settled'.update_eq] at hset' ⊢
  refine Alike.ok ⟨hset,hset',h.tickTime,h.maxAoeRadius,hmaps,?_⟩
  intro id
  apply Option.ext
  intro u
  show (collectUsers v.movedMaps).lookup id = some u ↔ (collectUsers w.movedMaps).lookup id = some u
  rw [h.settled'.lookup_collectUsers_moved, h.settled.lookup_collectUsers_moved]
  simp only [hmaps]

end World.Alike

theorem alike_init {conf conf' : GameServerConf} (h : conf'.basic = conf.basic) :
    (World.init conf).Alike (World.init conf') where
  settled := settled_init conf
  settled' := settled_init conf'
  tickTime := by unfold World.init; rw [h]
  maxAoeRadius := by unfold World.init; rw [h]
  maps tag id := by rw [userAt_init, userAt_init]
  users _ := rfl

end GameServer.Server
