import GameServer.Library.Run
import GameServer.Server.AreaEffect

/-! # Runs of the world

A run applies the operations of the world in any order. Between two operations
the hash maps may enumerate their entries in any other order, and an operation
that panics leaves the writes it has made. Validity survives all of it.
-/
namespace GameServer.Server
open Common CommonServer Library

/-- The same map of the world, its users enumerated in any order. -/
structure Map.Same (m m' : Map) : Prop where
  rest : m' = { m with scenes := m'.scenes }
  users : m.scenes.users.Same m'.scenes.users

/-- The same world, its hash maps enumerated in any order. -/
structure World.Same (w w' : World) : Prop where
  rest : w' = { w with maps := w'.maps, users := w'.users, clientMap := w'.clientMap }
  maps : ∀ tag, Option.Rel Map.Same (w.maps.lookup tag) (w'.maps.lookup tag)
  users : w.users.Same w'.users
  clientMap : w.clientMap.Same w'.clientMap

namespace World.Same
variable {w w' : World}

theorem userAt_eq (h : w.Same w') (tag : MapTag) (id : UserId) :
    userAt w'.maps tag id = userAt w.maps tag id := by
  have hm := h.maps tag
  unfold userAt
  generalize w.maps.lookup tag = o at hm
  generalize w'.maps.lookup tag = o' at hm
  cases hm with
  | none => rfl
  | some hs => exact (hs.users id).symm

theorem mem_iff (h : w.Same w') (tag : MapTag) : tag ∈ w'.maps ↔ tag ∈ w.maps := by
  have hm := h.maps tag
  rw [← AList.lookup_isSome, ← AList.lookup_isSome]
  generalize w.maps.lookup tag = o at hm
  generalize w'.maps.lookup tag = o' at hm
  cases hm <;> rfl

theorem areaLen_eq (h : w.Same w') : w'.areaLen = w.areaLen := by rw [h.rest]

theorem layout (h : w.Same w') (hl : Layout w.maps) : Layout w'.maps := by
  refine ⟨fun tag => (h.mem_iff tag).trans (hl.keys tag),?_⟩
  intro tag m' hm'
  have hm := h.maps tag
  rw [hm'] at hm
  cases hw : w.maps.lookup tag with
  | none =>
    rw [hw] at hm
    cases hm
  | some m =>
    rw [hw] at hm
    cases hm with
    | some hs =>
      rw [hs.rest]
      exact hl.tags tag m hw

end World.Same

theorem settled_of_same {w w' : World} (h : w.Settled) (hs : w.Same w') : w'.Settled where
  area := hs.areaLen_eq.trans h.area
  layout := hs.layout h.layout
  ids tag id u hu := h.ids tag id u (hs.userAt_eq tag id ▸ hu)
  placed tag id u hu := h.placed tag id u (hs.userAt_eq tag id ▸ hu)
  agree tag id u hu := by
    obtain ⟨v,hv,hp⟩ := h.agree tag id u (hs.userAt_eq tag id ▸ hu)
    exact ⟨v,(hs.users id).symm.trans hv,hp⟩

theorem valid_of_same {w w' : World} (h : w.Valid) (hs : w.Same w') : w'.Valid where
  toSettled := settled_of_same h.toSettled hs
  mapsIn tag id u hu := h.mapsIn tag id u (hs.userAt_eq tag id ▸ hu)
  usersIn id v hv := h.usersIn id v ((hs.users id).trans hv)

/-- The operations on a world; `login` and `logout` only touch the session table, and
the iteration order of an area of effect is part of the operation. -/
inductive WorldOp
  | addUser (user : User)
  | removeUser (userId : UserId)
  | login (clientId : String) (userId : UserId)
  | logout (clientId : String)
  | removeUserByClientId (clientId : String)
  | setVelocity (id : UserId) (velocity : Velocity)
  | aoe (order : HashMap UserId User → List User) (id : UserId) (radius : ℚ) (money : UInt64)
  | update

namespace WorldOp

def run (overflow : Overflow) (w : World) : WorldOp → Outcome Panic World
  | addUser user => Outcome.ok (w.addUser user)
  | removeUser userId => w.removeUser userId
  | login clientId userId => Outcome.ok { w with clientMap := w.clientMap.insert clientId userId }
  | logout clientId => Outcome.ok { w with clientMap := w.clientMap.erase clientId }
  | removeUserByClientId clientId => w.removeUserByClientId clientId
  | setVelocity id velocity => Outcome.ok (w.setVelocity id velocity)
  | aoe order id radius money => w.aoe overflow order id radius money
  | update => w.update

/-- New users have a fresh id and start inside the world. -/
def Admissible (w : World) : WorldOp → Prop
  | addUser user => w.Fresh user.id ∧ InWorld user.position
  | aoe order _ _ _ => Enumerates order
  | _ => True

end WorldOp

/-- One operation, or another enumeration order of the same world. -/
inductive WorldStep (overflow : Overflow) : World → Option WorldOp → World → Prop
  | op {w : World} {a : WorldOp} : a.Admissible w → WorldStep overflow w (some a) (a.run overflow w).state
  | reorder {w w' : World} : w.Same w' → WorldStep overflow w none w'

def worldLts (overflow : Overflow) (conf : GameServerConf) : Lts World (Option WorldOp) where
  init w := w = World.init conf
  step := WorldStep overflow

def WorldOp.AddsFresh (w : World) : WorldOp → Prop
  | .addUser user => w.Fresh user.id
  | _ => True

theorem settled_run {overflow : Overflow} {w : World} {a : WorldOp} (h : w.Settled)
    (ha : a.AddsFresh w) : (a.run overflow w).state.Settled := by
  cases a with
  | addUser user => exact settled_addUser h ha
  | removeUser userId => exact settled_removeUser h userId
  | login clientId userId => exact settled_clientMap h _
  | logout clientId => exact settled_clientMap h _
  | removeUserByClientId clientId => exact settled_removeUserByClientId h clientId
  | setVelocity id velocity => exact settled_setVelocity h id velocity
  | aoe order id radius money =>
    exact settled_of_credited h (credited_aoe overflow order w id radius money)
  | update => exact settled_update h

theorem valid_run {overflow : Overflow} {w : World} {a : WorldOp} (h : w.Valid) (ha : a.Admissible w) :
    (a.run overflow w).state.Valid := by
  cases a with
  | addUser user => exact valid_addUser h ha.1 ha.2
  | removeUser userId => exact valid_removeUser h userId
  | login clientId userId => exact valid_clientMap h _
  | logout clientId => exact valid_clientMap h _
  | removeUserByClientId clientId => exact valid_removeUserByClientId h clientId
  | setVelocity id velocity => exact valid_setVelocity h id velocity
  | aoe order id radius money => exact valid_aoe h overflow order id radius money
  | update => exact valid_update h

theorem valid_step {overflow : Overflow} {w w' : World} {a : Option WorldOp} (h : w.Valid)
    (hs : WorldStep overflow w a w') : w'.Valid := by
  cases hs with
  | op ha => exact valid_run h ha
  | reorder hs => exact valid_of_same h hs

theorem valid_of_reachable {overflow : Overflow} {conf : GameServerConf} {w : World}
    (h : (worldLts overflow conf).Reachable w) : w.Valid := by
  obtain ⟨past,hrun⟩ := h
  apply hrun.invariant
  · rintro s rfl
    exact valid_init conf
  · exact fun s a t hv hs => valid_step hv hs

/-- The representation of the world holds in every reachable state, so a tick and
an area of effect find every map and user they look up. -/
theorem reachable_representation {overflow : Overflow} {conf : GameServerConf} {w : World}
    (h : (worldLts overflow conf).Reachable w) :
    (∀ tag id u, userAt w.maps tag id = some u → u.id = id ∧
      pos2mapTag w.areaLen u.position = tag ∧
      ∃ map, w.maps.lookup tag = some map ∧ map.mapTag = tag) ∧
    (∀ tag tag' id u u', userAt w.maps tag id = some u → userAt w.maps tag' id = some u' →
      tag = tag') ∧
    (∀ tag id u, userAt w.maps tag id = some u →
      ∃ v, w.users.lookup id = some v ∧ v.position = u.position ∧ v.velocity = u.velocity) ∧
    ((∀ tag id u, userAt w.maps tag id = some u → InWorld u.position) ∧
      ∀ id v, w.users.lookup id = some v → InWorld v.position) ∧
    w.update.panic = none ∧
    ∀ order, Enumerates order → ∀ id radius money,
      (w.aoe overflow order id radius money).panic ≠ some .mapIsNone ∧
      (w.aoe overflow order id radius money).panic ≠ some .aoeUserMissing := by
  have hv := valid_of_reachable h
  refine ⟨?_,?_,hv.agree,⟨hv.mapsIn,hv.usersIn⟩,?_,?_⟩
  · intro tag id u hu
    refine ⟨hv.ids tag id u hu,?_,?_⟩
    · rw [hv.area]
      exact hv.placed tag id u hu
    · obtain ⟨map,hmap⟩ := AList.exists_lookup (mem_of_userAt hu)
      exact ⟨map,hmap,hv.layout.tags tag map hmap⟩
  · exact fun tag tag' id u u' hu hu' => hv.unique hu hu'
  · rw [hv.update_eq]
    rfl
  · intro order ho id radius money
    constructor
    · intro he
      cases aoe_panic hv.toSettled overflow ho id radius money he
    · intro he
      cases aoe_panic hv.toSettled overflow ho id radius money he

theorem fresh_init (conf : GameServerConf) (id : UserId) : (World.init conf).Fresh id :=
  ⟨rfl,fun tag => userAt_init conf tag id⟩

theorem reachable_addUser_init (overflow : Overflow) (conf : GameServerConf) (user : User)
    (hin : InWorld user.position) :
    (worldLts overflow conf).Reachable ((World.init conf).addUser user) :=
  ⟨_,Run.next (Run.start rfl) (WorldStep.op (a := .addUser user) ⟨fresh_init conf _,hin⟩)⟩

/-- The user lies where its position says, agrees with its copy, and no unwrap fails on it. -/
theorem reachable_representation_first_user :
    let w := (World.init .master).addUser (User.randomWithoutVelocity 1 (Vector2.new 5 7))
    (∃ tag u v, userAt w.maps tag 1 = some u ∧ pos2mapTag w.areaLen u.position = tag ∧
      w.users.lookup 1 = some v ∧ v.position = u.position ∧ InWorld u.position) ∧
    w.update.panic = none ∧
    ∀ radius money, (w.aoe .wraps AList.values 1 radius money).panic ≠ some .mapIsNone := by
  obtain ⟨hkeyed,-,hagree,⟨hin,-⟩,hupdate,haoe⟩ := reachable_representation (reachable_addUser_init .wraps .master
    (User.randomWithoutVelocity 1 (Vector2.new 5 7)) (by decide))
  have hstored : userAt ((World.init .master).addUser (User.randomWithoutVelocity 1 (Vector2.new 5 7))).maps
      (pos2mapTag areaLength (Vector2.new 5 7)) 1 = some (User.randomWithoutVelocity 1 (Vector2.new 5 7)) := by
    decide +kernel
  obtain ⟨v,hv,hp,-⟩ := hagree _ _ _ hstored
  exact ⟨⟨_,_,v,hstored,(hkeyed _ _ _ hstored).2.1,hv,hp,hin _ _ _ hstored⟩,hupdate,
    fun radius money => (haoe AList.values enumerates_values 1 radius money).1⟩

end GameServer.Server
