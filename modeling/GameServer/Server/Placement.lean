import GameServer.Server.Grid

/-! # Every user lies where its position says, in both copies

The maps of a valid world are those of `World::init`; every user in a scene lies
in the map of its position and has a copy with the same position and velocity in
the index. Every operation keeps this, also when it panics half way.
-/
namespace GameServer.Server
open Common CommonServer Library

/-- The maps are those `World::init` creates, each under its own tag. -/
structure Layout (maps : Maps) : Prop where
  keys : ∀ tag, tag ∈ maps ↔ tag ∈ initTags
  tags : ∀ tag map, maps.lookup tag = some map → map.mapTag = tag

namespace Layout

theorem adjust {maps : Maps} (h : Layout maps) (t : MapTag) {f : Map → Map}
    (hf : ∀ map, (f map).mapTag = map.mapTag) : Layout (maps.adjust t f) := by
  refine ⟨fun tag => AList.mem_adjust.trans (h.keys tag),?_⟩
  intro tag map hmap
  rw [AList.lookup_adjust] at hmap
  split at hmap
  · obtain ⟨old,hold,rfl⟩ := Option.map_eq_some_iff.mp hmap
    rw [hf]
    exact h.tags tag old hold
  · exact h.tags tag map hmap

theorem mapVal {maps : Maps} (h : Layout maps) {f : MapTag → Map → Map}
    (hf : ∀ tag map, (f tag map).mapTag = map.mapTag) : Layout (maps.mapVal f) := by
  constructor
  · intro tag
    rw [AList.mem_keys, AList.keys_mapVal, ← AList.mem_keys]
    exact h.keys tag
  · intro tag map hmap
    rw [AList.lookup_mapVal] at hmap
    obtain ⟨old,hold,rfl⟩ := Option.map_eq_some_iff.mp hmap
    rw [hf]
    exact h.tags tag old hold

end Layout

/-- Placement and agreement of the two copies, together. -/
structure World.Settled (w : World) : Prop where
  area : w.areaLen = areaLength
  layout : Layout w.maps
  ids : ∀ tag id u, userAt w.maps tag id = some u → u.id = id
  placed : ∀ tag id u, userAt w.maps tag id = some u → pos2mapTag areaLength u.position = tag
  agree : ∀ tag id u, userAt w.maps tag id = some u →
    ∃ v, w.users.lookup id = some v ∧ v.position = u.position ∧ v.velocity = u.velocity

/-- A settled world all of whose positions are inside the world. -/
structure World.Valid (w : World) : Prop extends w.Settled where
  mapsIn : ∀ tag id u, userAt w.maps tag id = some u → InWorld u.position
  usersIn : ∀ id v, w.users.lookup id = some v → InWorld v.position

namespace World.Settled
variable {w : World}

/-- No id lies in two maps: both entries agree with the one copy in the index. -/
theorem unique (h : w.Settled) {t t' : MapTag} {id : UserId} {u u' : User}
    (hu : userAt w.maps t id = some u) (hu' : userAt w.maps t' id = some u') : t = t' := by
  obtain ⟨v,hv,hpos,-⟩ := h.agree t id u hu
  obtain ⟨v',hv',hpos',-⟩ := h.agree t' id u' hu'
  have hvv : v = v' := Option.some.inj (hv.symm.trans hv')
  rw [← h.placed t id u hu, ← h.placed t' id u' hu', ← hpos, ← hpos', hvv]

theorem unique_user (h : w.Settled) {t t' : MapTag} {id : UserId} {u u' : User}
    (hu : userAt w.maps t id = some u) (hu' : userAt w.maps t' id = some u') : u = u' := by
  have ht := h.unique hu hu'
  subst ht
  exact Option.some.inj (hu.symm.trans hu')

theorem mem_initTags_of_userAt (h : w.Settled) {t : MapTag} {id : UserId} {u : User}
    (hu : userAt w.maps t id = some u) : t ∈ initTags := (h.layout.keys t).mp (mem_of_userAt hu)

/-- The map a user of the index would be removed from holds it, if any map does. -/
theorem tag_of_user (h : w.Settled) {t : MapTag} {id : UserId} {u v : User}
    (hu : userAt w.maps t id = some u) (hv : w.users.lookup id = some v) :
    pos2mapTag w.areaLen v.position = t := by
  obtain ⟨v',hv',hpos,-⟩ := h.agree t id u hu
  have hvv : v = v' := Option.some.inj (hv.symm.trans hv')
  rw [hvv, hpos, h.area]
  exact h.placed t id u hu

end World.Settled

/-! ## The initial world -/

theorem lookup_init_maps (conf : GameServerConf) (tag : MapTag) :
    (World.init conf).maps.lookup tag = if tag ∈ initTags then some (initMap tag) else none := by
  unfold World.init
  rw [AList.lookup_foldl_insert, AList.lookup_empty]

theorem userAt_init (conf : GameServerConf) (tag : MapTag) (id : UserId) :
    userAt (World.init conf).maps tag id = none := by
  unfold userAt
  rw [lookup_init_maps]
  split <;> rfl

theorem layout_init (conf : GameServerConf) : Layout (World.init conf).maps := by
  constructor
  · intro tag
    rw [← AList.lookup_isSome, lookup_init_maps]
    split <;> simp_all
  · intro tag map hmap
    rw [lookup_init_maps] at hmap
    split at hmap
    · cases hmap
      rfl
    · cases hmap

theorem settled_init (conf : GameServerConf) : (World.init conf).Settled where
  area := rfl
  layout := layout_init conf
  ids tag id u h := by rw [userAt_init] at h; cases h
  placed tag id u h := by rw [userAt_init] at h; cases h
  agree tag id u h := by rw [userAt_init] at h; cases h

theorem valid_init (conf : GameServerConf) : (World.init conf).Valid where
  toSettled := settled_init conf
  mapsIn tag id u h := by rw [userAt_init] at h; cases h
  usersIn id v h := by cases h

/-! ## Adding, removing and steering a user -/

/-- An id no copy of a user carries. -/
def World.Fresh (w : World) (id : UserId) : Prop :=
  w.users.lookup id = none ∧ ∀ tag, userAt w.maps tag id = none

theorem userAt_addUser (w : World) (user : User) (tag : MapTag) (id : UserId) :
    userAt (w.addUser user).maps tag id =
      if tag = pos2mapTag w.areaLen user.position ∧ id = user.id ∧ tag ∈ w.maps then some user
      else userAt w.maps tag id := userAt_insertUser _ _ _ _ _

theorem lookup_addUser (w : World) (user : User) (id : UserId) :
    (w.addUser user).users.lookup id = if id = user.id then some user else w.users.lookup id :=
  AList.lookup_insert_eq _ _ _ _

theorem userAt_addUser_cases {w : World} {user : User} (hf : w.Fresh user.id) {tag : MapTag}
    {id : UserId} {u : User} (hu : userAt (w.addUser user).maps tag id = some u) :
    (id = user.id ∧ u = user ∧ tag = pos2mapTag w.areaLen user.position) ∨
    (id ≠ user.id ∧ userAt w.maps tag id = some u) := by
  rw [userAt_addUser] at hu
  split at hu
  · rename_i hc
    exact Or.inl ⟨hc.2.1,(Option.some.inj hu).symm,hc.1⟩
  · refine Or.inr ⟨?_,hu⟩
    rintro rfl
    rw [hf.2] at hu
    cases hu

theorem settled_addUser {w : World} (h : w.Settled) {user : User} (hf : w.Fresh user.id) :
    (w.addUser user).Settled := by
  refine ⟨h.area,h.layout.adjust _ (fun _ => rfl),?_,?_,?_⟩
  · intro tag id u hu
    rcases userAt_addUser_cases hf hu with ⟨rfl,rfl,-⟩ | ⟨-,hu⟩
    · rfl
    · exact h.ids tag id u hu
  · intro tag id u hu
    rcases userAt_addUser_cases hf hu with ⟨-,rfl,rfl⟩ | ⟨-,hu⟩
    · rw [h.area]
    · exact h.placed tag id u hu
  · intro tag id u hu
    rw [lookup_addUser]
    rcases userAt_addUser_cases hf hu with ⟨rfl,rfl,-⟩ | ⟨hne,hu⟩
    · exact ⟨u,if_pos rfl,rfl,rfl⟩
    · rw [if_neg hne]
      exact h.agree tag id u hu

theorem valid_addUser {w : World} (h : w.Valid) {user : User} (hf : w.Fresh user.id)
    (hin : InWorld user.position) : (w.addUser user).Valid := by
  refine ⟨settled_addUser h.toSettled hf,?_,?_⟩
  · intro tag id u hu
    rcases userAt_addUser_cases hf hu with ⟨-,rfl,-⟩ | ⟨-,hu⟩
    · exact hin
    · exact h.mapsIn tag id u hu
  · intro id v hv
    rw [lookup_addUser] at hv
    split at hv
    · cases hv
      exact hin
    · exact h.usersIn id v hv

/-- What `remove_user` does, panics included. -/
theorem removeUser_cases (w : World) (userId : UserId) :
    (w.users.lookup userId = none ∧ w.removeUser userId = Outcome.ok w) ∨
    (∃ v, w.users.lookup userId = some v ∧ pos2mapTag w.areaLen v.position ∉ w.maps ∧
      w.removeUser userId = Outcome.fail w .removeMapMissing) ∨
    (∃ v, w.users.lookup userId = some v ∧ pos2mapTag w.areaLen v.position ∈ w.maps ∧
      w.removeUser userId = Outcome.ok { w with
        maps := w.maps.adjust (pos2mapTag w.areaLen v.position) (Map.removeUser userId)
        users := w.users.erase userId }) := by
  unfold World.removeUser
  cases hv : w.users.lookup userId with
  | none => exact Or.inl ⟨rfl,rfl⟩
  | some v =>
    right
    dsimp only
    cases hm : w.maps.lookup (pos2mapTag w.areaLen v.position) with
    | none => exact Or.inl ⟨v,rfl,AList.lookup_eq_none.mp hm,rfl⟩
    | some map =>
      have hin := AList.mem_of_lookup hm
      exact Or.inr ⟨v,rfl,hin,rfl⟩

theorem userAt_of_removeUser {w : World} (h : w.Settled) {userId : UserId} {tag : MapTag}
    {id : UserId} {u : User} (hu : userAt (w.removeUser userId).state.maps tag id = some u) :
    userAt w.maps tag id = some u ∧
      ((w.removeUser userId).state.users.lookup id = w.users.lookup id) := by
  rcases removeUser_cases w userId with ⟨-,he⟩ | ⟨v,-,-,he⟩ | ⟨v,hv,-,he⟩
  · rw [he] at hu ⊢
    exact ⟨hu,rfl⟩
  · rw [he] at hu ⊢
    exact ⟨hu,rfl⟩
  · rw [he] at hu ⊢
    rw [Outcome.ok_state, userAt_removeUser] at hu
    split at hu
    · cases hu
    · rename_i hc
      refine ⟨hu,AList.lookup_erase_ne ?_⟩
      rintro rfl
      exact hc ⟨(h.tag_of_user hu hv).symm,rfl⟩

theorem settled_removeUser {w : World} (h : w.Settled) (userId : UserId) :
    (w.removeUser userId).state.Settled := by
  have hgrid : (w.removeUser userId).state.areaLen = areaLength ∧
      Layout (w.removeUser userId).state.maps := by
    rcases removeUser_cases w userId with ⟨-,he⟩ | ⟨v,-,-,he⟩ | ⟨v,-,-,he⟩
    · rw [he]
      exact ⟨h.area,h.layout⟩
    · rw [he]
      exact ⟨h.area,h.layout⟩
    · rw [he]
      exact ⟨h.area,h.layout.adjust _ (fun _ => rfl)⟩
  refine ⟨hgrid.1,hgrid.2,?_,?_,?_⟩
  · exact fun tag id u hu => h.ids tag id u (userAt_of_removeUser h hu).1
  · exact fun tag id u hu => h.placed tag id u (userAt_of_removeUser h hu).1
  · intro tag id u hu
    obtain ⟨hold,hl⟩ := userAt_of_removeUser h hu
    rw [hl]
    exact h.agree tag id u hold

theorem valid_removeUser {w : World} (h : w.Valid) (userId : UserId) :
    (w.removeUser userId).state.Valid := by
  refine ⟨settled_removeUser h.toSettled userId,?_,?_⟩
  · exact fun tag id u hu => h.mapsIn tag id u (userAt_of_removeUser h.toSettled hu).1
  · intro id v hv
    rcases removeUser_cases w userId with ⟨-,he⟩ | ⟨v',-,-,he⟩ | ⟨v',-,-,he⟩
    · rw [he] at hv
      exact h.usersIn id v hv
    · rw [he] at hv
      exact h.usersIn id v hv
    · rw [he, Outcome.ok_state, AList.lookup_erase_eq] at hv
      split at hv
      · cases hv
      · exact h.usersIn id v hv

/-- The session table plays no part in the validity of the world. -/
theorem settled_clientMap {w : World} (h : w.Settled) (clientMap : HashMap String UserId) :
    { w with clientMap := clientMap }.Settled := ⟨h.area,h.layout,h.ids,h.placed,h.agree⟩

theorem valid_clientMap {w : World} (h : w.Valid) (clientMap : HashMap String UserId) :
    { w with clientMap := clientMap }.Valid :=
  ⟨settled_clientMap h.toSettled clientMap,h.mapsIn,h.usersIn⟩

theorem settled_removeUserByClientId {w : World} (h : w.Settled) (clientId : String) :
    (w.removeUserByClientId clientId).state.Settled := by
  unfold World.removeUserByClientId
  have hc := settled_clientMap h (w.clientMap.erase clientId)
  cases w.clientMap.lookup clientId with
  | none => exact hc
  | some userId => exact settled_removeUser hc userId

theorem valid_removeUserByClientId {w : World} (h : w.Valid) (clientId : String) :
    (w.removeUserByClientId clientId).state.Valid := by
  unfold World.removeUserByClientId
  have hc := valid_clientMap h (w.clientMap.erase clientId)
  cases w.clientMap.lookup clientId with
  | none => exact hc
  | some userId => exact valid_removeUser hc userId

/-- A changed velocity reaches the user's entry, and nothing else changes. -/
theorem userAt_setVelocity {w : World} (h : w.Settled) (i : UserId) (velocity : Velocity)
    {tag : MapTag} {id : UserId} {u : User} (hu : userAt (w.setVelocity i velocity).maps tag id = some u) :
    ∃ u₀, userAt w.maps tag id = some u₀ ∧
      u = if id = i then { u₀ with velocity := velocity } else u₀ := by
  unfold World.setVelocity at hu
  cases hv : w.users.lookup i with
  | none =>
    rw [hv] at hu
    refine ⟨u,hu,?_⟩
    split
    · rename_i hi
      obtain ⟨v,hv',-⟩ := h.agree tag id u hu
      rw [hi, hv] at hv'
      cases hv'
    · rfl
  | some v =>
    rw [hv] at hu
    dsimp only at hu
    rw [userAt_adjustUser] at hu
    split at hu
    · rename_i hc
      obtain ⟨u₀,hu₀,rfl⟩ := Option.map_eq_some_iff.mp hu
      exact ⟨u₀,hu₀,by rw [if_pos hc.2]⟩
    · rename_i hc
      refine ⟨u,hu,?_⟩
      split
      · rename_i hi
        subst hi
        exact absurd ⟨(h.tag_of_user hu hv).symm,rfl⟩ hc
      · rfl

theorem lookup_setVelocity (w : World) (i : UserId) (velocity : Velocity) (id : UserId) :
    (w.setVelocity i velocity).users.lookup id =
      (w.users.lookup id).map (fun v => if id = i then { v with velocity := velocity } else v) := by
  unfold World.setVelocity
  cases hv : w.users.lookup i with
  | none =>
    by_cases hi : id = i
    · subst hi
      simp [hv]
    · simp [hi]
  | some v =>
    dsimp only
    rw [AList.lookup_adjust]
    by_cases hi : id = i
    · simp [hi]
    · simp [hi]

theorem layout_setVelocity {w : World} (h : Layout w.maps) (i : UserId) (velocity : Velocity) :
    Layout (w.setVelocity i velocity).maps := by
  unfold World.setVelocity
  cases w.users.lookup i with
  | none => exact h
  | some v => exact h.adjust _ (fun _ => rfl)

theorem areaLen_setVelocity (w : World) (i : UserId) (velocity : Velocity) :
    (w.setVelocity i velocity).areaLen = w.areaLen := by
  unfold World.setVelocity
  cases w.users.lookup i <;> rfl

theorem settled_setVelocity {w : World} (h : w.Settled) (id : UserId) (velocity : Velocity) :
    (w.setVelocity id velocity).Settled := by
  refine ⟨(areaLen_setVelocity w id velocity).trans h.area,layout_setVelocity h.layout id velocity,
    ?_,?_,?_⟩
  · intro tag i u hu
    obtain ⟨u₀,hu₀,he⟩ := userAt_setVelocity h id velocity hu
    rw [← h.ids tag i u₀ hu₀, he]
    split <;> rfl
  · intro tag i u hu
    obtain ⟨u₀,hu₀,he⟩ := userAt_setVelocity h id velocity hu
    rw [← h.placed tag i u₀ hu₀, he]
    split <;> rfl
  · intro tag i u hu
    obtain ⟨u₀,hu₀,he⟩ := userAt_setVelocity h id velocity hu
    obtain ⟨v₀,hv₀,hp,hvel⟩ := h.agree tag i u₀ hu₀
    rw [lookup_setVelocity, hv₀, he]
    refine ⟨_,rfl,?_⟩
    split
    · exact ⟨hp,rfl⟩
    · exact ⟨hp,hvel⟩

theorem valid_setVelocity {w : World} (h : w.Valid) (id : UserId) (velocity : Velocity) :
    (w.setVelocity id velocity).Valid := by
  refine ⟨settled_setVelocity h.toSettled id velocity,?_,?_⟩
  · intro tag i u hu
    obtain ⟨u₀,hu₀,he⟩ := userAt_setVelocity h.toSettled id velocity hu
    have hin := h.mapsIn tag i u₀ hu₀
    rw [he]
    split <;> exact hin
  · intro i v hv
    rw [lookup_setVelocity] at hv
    obtain ⟨v₀,hv₀,rfl⟩ := Option.map_eq_some_iff.mp hv
    have hin := h.usersIn i v₀ hv₀
    split <;> exact hin

end GameServer.Server
