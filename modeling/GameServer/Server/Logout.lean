import GameServer.Server.Conservation

/-! # Logging out removes a player everywhere

A logout takes the client out of the session table and its user out of the index and
of its map. It is complete unless the index holds the user at a position without a map:
then the second lookup panics after the session is gone.
-/
namespace GameServer.Server
open Common CommonServer Library

/-- The client and its user are gone, nothing else has changed, and no panic occurred. -/
structure World.LoggedOut (w : World) (clientId : String) (o : Outcome Panic World) : Prop where
  finished : o.panic = none
  client : o.state.clientMap.lookup clientId = none
  user : ∀ id, w.clientMap.lookup clientId = some id →
    o.state.users.lookup id = none ∧ ∀ tag, userAt o.state.maps tag id = none
  clients : ∀ clientId', clientId' ≠ clientId →
    o.state.clientMap.lookup clientId' = w.clientMap.lookup clientId'
  users : ∀ id, w.clientMap.lookup clientId ≠ some id → o.state.users.lookup id = w.users.lookup id ∧
    ∀ tag, userAt o.state.maps tag id = userAt w.maps tag id

/-- The index does not hold the client's user on a half axis without a map, coordinates read as
rationals: the tag of the stored position is a key of the maps. -/
def World.OnMap (w : World) (clientId : String) : Prop :=
  ∀ id u, w.clientMap.lookup clientId = some id → w.users.lookup id = some u → ¬ Unmapped u.position

section
variable {w : World} {clientId : String}

theorem removeUserByClientId_of_some {id : UserId} (hid : w.clientMap.lookup clientId = some id) :
    w.removeUserByClientId clientId =
      { w with clientMap := w.clientMap.erase clientId }.removeUser id := by
  simp only [World.removeUserByClientId, hid]

theorem removeUserByClientId_of_none (hid : w.clientMap.lookup clientId = none) :
    w.removeUserByClientId clientId = Outcome.ok { w with clientMap := w.clientMap.erase clientId } := by
  simp only [World.removeUserByClientId, hid]

/-- A removed user is in neither copy afterwards, and every other user stays in both. -/
theorem removeUser_removes (h : w.Valid) {id : UserId}
    (hn : ∀ u, w.users.lookup id = some u → ¬ Unmapped u.position) :
    (w.removeUser id).panic = none ∧ (w.removeUser id).state.clientMap = w.clientMap ∧
    (∀ i, (w.removeUser id).state.users.lookup i = if i = id then none else w.users.lookup i) ∧
    ∀ tag i, userAt (w.removeUser id).state.maps tag i = if i = id then none else userAt w.maps tag i := by
  rcases removeUser_cases w id with ⟨hl,he⟩ | ⟨v,hv,hm,-⟩ | ⟨v,hv,-,he⟩
  · rw [he]
    refine ⟨rfl,rfl,?_,?_⟩
    · intro i
      split
      · rename_i hi
        rw [hi]
        exact hl
      · rfl
    · intro tag i
      split
      · rename_i hi
        cases hu : userAt w.maps tag i with
        | none => exact hu
        | some u =>
          obtain ⟨v,hv,-⟩ := h.agree tag i u hu
          rw [hi, hl] at hv
          cases hv
      · rfl
  · rw [h.area, h.layout.keys, pos2mapTag_mem_iff (h.usersIn id v hv)] at hm
    exact absurd (hn v hv) hm
  · rw [he]
    refine ⟨rfl,rfl,fun i => AList.lookup_erase_eq id i w.users,?_⟩
    intro tag i
    rw [Outcome.ok_state, userAt_removeUser]
    by_cases hi : i = id
    · rw [if_pos hi]
      split
      · rfl
      · rename_i hc
        cases hu : userAt w.maps tag i with
        | none => rfl
        | some u =>
          rw [hi] at hu
          exact absurd ⟨(h.tag_of_user hu hv).symm,hi⟩ hc
    · rw [if_neg hi, if_neg (fun hc => hi hc.2)]

theorem loggedOut_of_onMap (h : w.Valid) (hn : w.OnMap clientId) :
    w.LoggedOut clientId (w.removeUserByClientId clientId) := by
  have hcases : ∀ clientId', clientId' ≠ clientId →
      (w.clientMap.erase clientId).lookup clientId' = w.clientMap.lookup clientId' := fun _ hne =>
    AList.lookup_erase_ne hne
  cases hid : w.clientMap.lookup clientId with
  | none =>
    rw [removeUserByClientId_of_none hid]
    refine ⟨rfl,AList.lookup_erase _ _,?_,hcases,fun _ _ => ⟨rfl,fun _ => rfl⟩⟩
    intro id he
    rw [hid] at he
    cases he
  | some id =>
    rw [removeUserByClientId_of_some hid]
    obtain ⟨hp,hc,husers,hmaps⟩ := removeUser_removes
      (valid_clientMap h (w.clientMap.erase clientId)) (fun u hu => hn id u hid hu)
    refine ⟨hp,?_,?_,?_,?_⟩
    · rw [hc]
      exact AList.lookup_erase _ _
    · intro id' he
      obtain rfl : id = id' := Option.some.inj (hid.symm.trans he)
      exact ⟨by rw [husers, if_pos rfl],fun tag => by rw [hmaps, if_pos rfl]⟩
    · intro clientId' hne
      rw [hc]
      exact hcases clientId' hne
    · intro id' hne
      have hi : id' ≠ id := by
        rintro rfl
        exact hne hid
      exact ⟨by rw [husers, if_neg hi],fun tag => by rw [hmaps, if_neg hi]⟩

theorem onMap_of_finished (h : w.Valid) (hp : (w.removeUserByClientId clientId).panic = none) :
    w.OnMap clientId := by
  intro id u hid hu hn
  rw [removeUserByClientId_of_some hid] at hp
  have hv := valid_clientMap h (w.clientMap.erase clientId)
  rcases removeUser_cases { w with clientMap := w.clientMap.erase clientId } id with
    ⟨hl,-⟩ | ⟨v,-,-,he⟩ | ⟨v,hv',hm,-⟩
  · rw [hu] at hl
    cases hl
  · rw [he] at hp
    cases hp
  · rw [hu] at hv'
    obtain rfl := Option.some.inj hv'
    rw [hv.area, hv.layout.keys, pos2mapTag_mem_iff (h.usersIn id u hu)] at hm
    exact hm hn

end

/-- In a reachable world the removal of a client is complete and touches nothing else exactly
if the index does not hold its user on a half axis without a map. -/
theorem loggedOut_iff {overflow : Overflow} {conf : GameServerConf} {w : World}
    (h : (worldLts overflow conf).Reachable w) (clientId : String) :
    w.LoggedOut clientId (w.removeUserByClientId clientId) ↔ w.OnMap clientId := by
  have hv := valid_of_reachable h
  exact ⟨fun ho => onMap_of_finished hv ho.finished,loggedOut_of_onMap hv⟩

def World.loggedIn (conf : GameServerConf) (clientId : String) (user : User) : World :=
  { World.init conf with clientMap := (World.init conf).clientMap.insert clientId user.id }.addUser user

theorem reachable_loggedIn (overflow : Overflow) (conf : GameServerConf) (clientId : String) (user : User)
    (hin : InWorld user.position) :
    (worldLts overflow conf).Reachable (World.loggedIn conf clientId user) := by
  have hlogin : WorldStep overflow (World.init conf) (some (.login clientId user.id))
      ((WorldOp.login clientId user.id).run overflow (World.init conf)).state := WorldStep.op trivial
  exact ⟨_,((Run.start rfl).next hlogin).next
    (WorldStep.op (a := .addUser user) ⟨⟨rfl,fun tag => userAt_init conf tag _⟩,hin⟩)⟩

theorem loggedOut_first_client :
    (World.loggedIn .master "client" (User.randomWithoutVelocity 1 (Vector2.new 5 7))).LoggedOut "client"
      ((World.loggedIn .master "client"
        (User.randomWithoutVelocity 1 (Vector2.new 5 7))).removeUserByClientId "client") := by
  apply (loggedOut_iff (reachable_loggedIn .wraps .master "client" _ (by decide)) "client").mpr
  intro id u hid hu
  obtain rfl : 1 = id := Option.some.inj hid
  obtain rfl : User.randomWithoutVelocity 1 (Vector2.new 5 7) = u := Option.some.inj hu
  decide

theorem not_loggedOut_at_origin : ∃ w, (worldLts .panics .master).Reachable w ∧
    ¬ w.LoggedOut "client" (w.removeUserByClientId "client") := by
  refine ⟨_,reachable_loggedIn .panics .master "client" (User.randomWithoutVelocity 1 Vector2.zero)
    (by decide),?_⟩
  intro ho
  have hon := onMap_of_finished (valid_of_reachable (reachable_loggedIn .panics .master "client"
    (User.randomWithoutVelocity 1 Vector2.zero) (by decide))) ho.finished
  exact hon 1 (User.randomWithoutVelocity 1 Vector2.zero) rfl rfl (by decide)

end GameServer.Server
