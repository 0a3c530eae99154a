import GameServer.Server.Runs
import Mathlib.Data.Finset.Erase
import Mathlib.Data.Finset.Insert

/-! # No user is lost, none is left over

The ids in the scenes, the ids in the index and the ids added and not yet removed
stay one set as long as no user is put on a half axis without a map: there an
added user reaches the index only, and a moved user disappears from both.
-/
namespace GameServer.Server
open Common CommonServer Library

def mapIds (maps : Maps) : Set UserId := {id | ∃ tag u, userAt maps tag id = some u}

def World.userIds (w : World) : Set UserId := {id | ∃ u, w.users.lookup id = some u}

theorem fresh_of_notMem {w : World} {id : UserId} (hu : id ∉ w.userIds) (hm : id ∉ mapIds w.maps) :
    w.Fresh id := by
  constructor
  · cases hl : w.users.lookup id with
    | none => rfl
    | some u => exact absurd ⟨u,hl⟩ hu
  · intro tag
    cases hl : userAt w.maps tag id with
    | none => rfl
    | some u => exact absurd ⟨tag,u,hl⟩ hm

theorem mapIds_init (conf : GameServerConf) : mapIds (World.init conf).maps = ∅ := by
  ext id
  simp [mapIds, userAt_init]

theorem userIds_init (conf : GameServerConf) : (World.init conf).userIds = ∅ := by
  ext id
  simp [World.userIds, World.init]

section
variable {w : World}

theorem mapIds_addUser (h : w.Settled) {user : User} (hin : InWorld user.position) {id : UserId} :
    id ∈ mapIds (w.addUser user).maps ↔
      id ∈ mapIds w.maps ∨ (id = user.id ∧ ¬ Unmapped user.position) := by
  have hmem : pos2mapTag w.areaLen user.position ∈ w.maps ↔ ¬ Unmapped user.position := by
    rw [h.area]
    exact (h.layout.keys _).trans (pos2mapTag_mem_iff hin)
  constructor
  · rintro ⟨tag,u,hu⟩
    rw [userAt_addUser] at hu
    split at hu
    · rename_i hc
      obtain ⟨rfl,rfl,ht⟩ := hc
      exact Or.inr ⟨rfl,hmem.mp ht⟩
    · exact Or.inl ⟨tag,u,hu⟩
  · intro hid
    by_cases hnew : id = user.id ∧ ¬ Unmapped user.position
    · refine ⟨pos2mapTag w.areaLen user.position,user,?_⟩
      rw [userAt_addUser, if_pos ⟨rfl,hnew.1,hmem.mpr hnew.2⟩]
    · obtain ⟨tag,u,hu⟩ := hid.resolve_right hnew
      by_cases hc : tag = pos2mapTag w.areaLen user.position ∧ id = user.id ∧ tag ∈ w.maps
      · exact ⟨tag,user,by rw [userAt_addUser, if_pos hc]⟩
      · exact ⟨tag,u,by rw [userAt_addUser, if_neg hc]; exact hu⟩

theorem userIds_addUser (w : World) (user : User) {id : UserId} :
    id ∈ (w.addUser user).userIds ↔ id ∈ w.userIds ∨ id = user.id := by
  simp only [World.userIds, Set.mem_ofPred_eq, lookup_addUser]
  by_cases hid : id = user.id
  · simp [hid]
  · simp [hid]

/-- A user of both copies is removed from both, and `remove_user` ends normally. -/
theorem removeUser_of_stored (h : w.Settled) {userId : UserId} (hm : userId ∈ mapIds w.maps) :
    (w.removeUser userId).panic = none ∧
    (∀ id, id ∈ mapIds (w.removeUser userId).state.maps ↔ id ∈ mapIds w.maps ∧ id ≠ userId) ∧
    (∀ id, id ∈ (w.removeUser userId).state.userIds ↔ id ∈ w.userIds ∧ id ≠ userId) := by
  obtain ⟨t,u,hu⟩ := hm
  obtain ⟨v,hv,-⟩ := h.agree t userId u hu
  have ht := h.tag_of_user hu hv
  rcases removeUser_cases w userId with ⟨hn,-⟩ | ⟨v',hv',hmiss,-⟩ | ⟨v',hv',-,he⟩
  · rw [hn] at hv
    cases hv
  · rw [hv] at hv'
    cases hv'
    rw [ht] at hmiss
    exact absurd (mem_of_userAt hu) hmiss
  · rw [hv] at hv'
    cases hv'
    rw [he]
    refine ⟨rfl,?_,?_⟩
    · intro id
      simp only [Outcome.ok_state, mapIds, Set.mem_ofPred_eq, userAt_removeUser, ht]
      by_cases hid : id = userId
      · subst hid
        have hno : ∀ tag, tag ≠ t → ∀ u', userAt w.maps tag id ≠ some u' :=
          fun tag hne u' hu' => hne (h.unique hu' hu)
        simpa using hno
      · simp [hid]
    · intro id
      simp only [Outcome.ok_state, World.userIds, Set.mem_ofPred_eq, AList.lookup_erase_eq]
      by_cases hid : id = userId
      · simp [hid]
      · simp [hid]

theorem removeUser_of_not_stored {userId : UserId} (hu : userId ∉ w.userIds) :
    w.removeUser userId = Outcome.ok w := by
  rcases removeUser_cases w userId with ⟨-,he⟩ | ⟨v,hv,-⟩ | ⟨v,hv,-⟩
  · exact he
  · exact absurd ⟨v,hv⟩ hu
  · exact absurd ⟨v,hv⟩ hu

theorem ids_setVelocity (w : World) (i : UserId) (velocity : Velocity) :
    mapIds (w.setVelocity i velocity).maps = mapIds w.maps ∧
    (w.setVelocity i velocity).userIds = w.userIds := by
  unfold World.setVelocity
  cases hv : w.users.lookup i with
  | none => exact ⟨rfl,rfl⟩
  | some v =>
    constructor
    · ext id
      simp only [mapIds, Set.mem_ofPred_eq, userAt_adjustUser]
      constructor
      · rintro ⟨tag,u,hu⟩
        split at hu
        · obtain ⟨u₀,hu₀,-⟩ := Option.map_eq_some_iff.mp hu
          exact ⟨tag,u₀,hu₀⟩
        · exact ⟨tag,u,hu⟩
      · rintro ⟨tag,u,hu⟩
        refine ⟨tag,?_⟩
        split
        · exact ⟨_,by rw [hu]; rfl⟩
        · exact ⟨u,hu⟩
    · ext id
      simp only [World.userIds, Set.mem_ofPred_eq, AList.lookup_adjust]
      by_cases hid : id = i
      · simp [hid]
      · simp [hid]

theorem ids_credited {s : World} (hc : w.Credited s) :
    mapIds s.maps = mapIds w.maps ∧ s.userIds = w.userIds := by
  constructor
  · ext id
    constructor
    · rintro ⟨tag,u,hu⟩
      obtain ⟨u₀,hu₀,-⟩ := hc.symm_entry hu
      exact ⟨tag,u₀,hu₀⟩
    · rintro ⟨tag,u,hu⟩
      obtain ⟨u₁,hu₁⟩ := hc.entry hu
      exact ⟨tag,u₁,hu₁⟩
  · simp only [World.userIds, hc.users_eq]

/-- A tick keeps a user exactly if it does not land on a half axis without a map. -/
theorem ids_update (h : w.Valid) :
    (∀ id, id ∈ mapIds w.update.state.maps ↔ ∃ tag u, userAt w.maps tag id = some u ∧
      ¬ Unmapped (u.shift w.tickTime).position) ∧
    w.update.state.userIds = mapIds w.update.state.maps := by
  rw [h.update_eq, Outcome.ok_state]
  constructor
  · intro id
    constructor
    · rintro ⟨tag,u',hu'⟩
      obtain ⟨t,u,hu,rfl,ht,hin⟩ := h.userAt_movedMaps.mp hu'
      rw [ht] at hin
      exact ⟨t,u,hu,(pos2mapTag_mem_iff (User.shift_inWorld (h.mapsIn t id u hu) _)).mp hin⟩
    · rintro ⟨t,u,hu,hn⟩
      have hin := (pos2mapTag_mem_iff (User.shift_inWorld (h.mapsIn t id u hu) _)).mpr hn
      exact ⟨_,_,h.userAt_movedMaps.mpr ⟨t,u,hu,rfl,rfl,hin⟩⟩
  · ext id
    simp only [World.userIds, World.updateStateInfo, Set.mem_ofPred_eq, h.lookup_collectUsers_moved]
    exact exists_comm

theorem ids_same {w' : World} (h : w.Same w') :
    mapIds w'.maps = mapIds w.maps ∧ w'.userIds = w.userIds := by
  constructor
  · simp only [mapIds, h.userAt_eq]
  · ext id
    simp only [World.userIds, Set.mem_ofPred_eq, ← h.users id]

end

/-! ## Runs that also record who was added and not yet removed -/

structure Tracked where
  world : World
  live : Finset UserId

/-- The ids added and not yet removed, after an operation. -/
def WorldOp.live (w : World) (live : Finset UserId) : WorldOp → Finset UserId
  | addUser user => insert user.id live
  | removeUser userId => live.erase userId
  | removeUserByClientId clientId => (w.clientMap.lookup clientId).elim live live.erase
  | _ => live

def trackedLts (overflow : Overflow) (conf : GameServerConf) : Lts Tracked (Option WorldOp) where
  init s := s = { world := World.init conf, live := ∅ }
  step s a t := WorldStep overflow s.world a t.world ∧
    t.live = a.elim s.live (WorldOp.live s.world s.live)

/-- The three sets of ids are one set. -/
structure Tracked.Conserved (s : Tracked) : Prop where
  maps : mapIds s.world.maps = s.live
  users : s.world.userIds = s.live

/-- The step puts no user on a half axis without a map. -/
def Tracked.KeepsOnGrid (s : Tracked) : Option WorldOp → Prop
  | some (.addUser user) => ¬ Unmapped user.position
  | some .update => ∀ tag id u, userAt s.world.maps tag id = some u →
      ¬ Unmapped (u.shift s.world.tickTime).position
  | _ => True

namespace Tracked
variable {s : Tracked}

theorem conserved_removeUser (hv : s.world.Valid) (hc : s.Conserved) (userId : UserId) :
    Conserved { world := (s.world.removeUser userId).state, live := s.live.erase userId } := by
  by_cases hin : userId ∈ s.live
  · have hm : userId ∈ mapIds s.world.maps := by
      rw [hc.maps]
      exact hin
    obtain ⟨-,hmaps,husers⟩ := removeUser_of_stored hv.toSettled hm
    constructor
    · ext id
      rw [hmaps, hc.maps, Finset.mem_coe, Finset.mem_coe, Finset.mem_erase]
      exact and_comm
    · ext id
      rw [husers, hc.users, Finset.mem_coe, Finset.mem_coe, Finset.mem_erase]
      exact and_comm
  · have hu : userId ∉ s.world.userIds := by
      rw [hc.users]
      exact hin
    rw [removeUser_of_not_stored hu, Finset.erase_eq_of_notMem hin]
    exact hc

theorem conserved_run {overflow : Overflow} {a : WorldOp} (hv : s.world.Valid) (hc : s.Conserved)
    (ha : a.Admissible s.world) (hg : s.KeepsOnGrid (some a)) :
    Conserved { world := (a.run overflow s.world).state, live := a.live s.world s.live } := by
  cases a with
  | addUser user =>
    constructor
    · ext id
      simp only [WorldOp.run, WorldOp.live, Outcome.ok_state, mapIds_addUser hv.toSettled ha.2, hc.maps,
        Finset.coe_insert, Set.mem_insert_iff]
      exact ⟨fun h => h.symm.imp_left And.left,fun h => h.symm.imp_right (fun h => ⟨h,hg⟩)⟩
    · ext id
      simp only [WorldOp.run, WorldOp.live, Outcome.ok_state, userIds_addUser, hc.users,
        Finset.coe_insert, Set.mem_insert_iff]
      exact or_comm
  | removeUser userId => exact conserved_removeUser hv hc userId
  | login clientId userId => exact ⟨hc.maps,hc.users⟩
  | logout clientId => exact ⟨hc.maps,hc.users⟩
  | removeUserByClientId clientId =>
    have hv' := valid_clientMap hv (s.world.clientMap.erase clientId)
    have hc' : Conserved
        { s with world := { s.world with clientMap := s.world.clientMap.erase clientId } } :=
      ⟨hc.maps,hc.users⟩
    simp only [WorldOp.run, WorldOp.live, World.removeUserByClientId]
    cases s.world.clientMap.lookup clientId with
    | none => exact hc'
    | some userId => exact conserved_removeUser hv' hc' userId
  | setVelocity id velocity =>
    obtain ⟨hm,hu⟩ := ids_setVelocity s.world id velocity
    exact ⟨hm.trans hc.maps,hu.trans hc.users⟩
  | aoe order id radius money =>
    obtain ⟨hm,hu⟩ := ids_credited (credited_aoe overflow order s.world id radius money)
    exact ⟨hm.trans hc.maps,hu.trans hc.users⟩
  | update =>
    obtain ⟨hm,hu⟩ := ids_update hv
    have hmaps : mapIds s.world.update.state.maps = s.live := by
      ext id
      rw [hm, ← hc.maps]
      constructor
      · rintro ⟨tag,u,hu,-⟩
        exact ⟨tag,u,hu⟩
      · rintro ⟨tag,u,hu⟩
        exact ⟨tag,u,hu,hg tag id u hu⟩
    exact ⟨hmaps,hu.trans hmaps⟩

theorem conserved_step {overflow : Overflow} {conf : GameServerConf} {t : Tracked}
    {a : Option WorldOp} (hi : s.world.Valid ∧ s.Conserved) (hg : s.KeepsOnGrid a)
    (hs : (trackedLts overflow conf).step s a t) : t.world.Valid ∧ t.Conserved := by
  obtain ⟨hw,hl⟩ := hs
  refine ⟨valid_step hi.1 hw,?_⟩
  obtain ⟨world,live⟩ := t
  dsimp only at hl hw
  subst hl
  cases hw with
  | op ha => exact conserved_run hi.1 hi.2 ha hg
  | reorder h =>
    obtain ⟨hm,hu⟩ := ids_same h
    exact ⟨hm.trans hi.2.maps,hu.trans hi.2.users⟩

/-- A step that puts a user on such a half axis loses it from a set at once. -/
theorem keepsOnGrid_of_conserved {overflow : Overflow} {conf : GameServerConf} {t : Tracked}
    {a : Option WorldOp} (hi : s.world.Valid ∧ s.Conserved)
    (hs : (trackedLts overflow conf).step s a t) (ht : t.Conserved) : s.KeepsOnGrid a := by
  obtain ⟨hw,hl⟩ := hs
  obtain ⟨world,live⟩ := t
  dsimp only at hl hw
  subst hl
  cases hw with
  | reorder h => trivial
  | @op a ha =>
    cases a with
    | addUser user =>
      intro hn
      have hlive : user.id ∈ mapIds (s.world.addUser user).maps := by
        have h : (user.id : UserId) ∈ (↑(insert user.id s.live) : Set UserId) := by simp
        exact ht.maps.symm ▸ h
      obtain ⟨tag,u,hu⟩ | hnew := (mapIds_addUser hi.1.toSettled ha.2).mp hlive
      · rw [ha.1.2 tag] at hu
        cases hu
      · exact hnew.2 hn
    | update =>
      intro tag id u hu
      have hlive : id ∈ mapIds s.world.update.state.maps := by
        have h : id ∈ mapIds s.world.maps := ⟨tag,u,hu⟩
        rw [hi.2.maps] at h
        exact ht.maps.symm ▸ h
      obtain ⟨t',u',hu',hn⟩ := (ids_update hi.1).1 id |>.mp hlive
      rw [hi.1.unique_user hu hu']
      exact hn
    | _ => trivial

end Tracked

/-- The three sets stay one set throughout a run exactly if no step of the run puts
a user on a half axis without a map. -/
theorem users_conserved_iff {overflow : Overflow} {conf : GameServerConf}
    {past : List (Tracked × Option WorldOp)} {s : Tracked}
    (h : Run (trackedLts overflow conf) past s) :
    Run.Always Tracked.Conserved past s ↔ ∀ p ∈ past, p.1.KeepsOnGrid p.2 := by
  apply Run.always_iff (I := fun s => s.world.Valid ∧ s.Conserved) _ _ _ _ h
  · rintro s rfl
    refine ⟨valid_init conf,?_,?_⟩
    · exact (mapIds_init conf).trans Finset.coe_empty.symm
    · exact (userIds_init conf).trans Finset.coe_empty.symm
  · exact fun s hs => hs.2
  · exact fun s a t hi hg hs => Tracked.conserved_step hi hg hs
  · exact fun s a t hi hs ht => Tracked.keepsOnGrid_of_conserved hi hs ht

def Tracked.firstUser (conf : GameServerConf) (user : User) : Tracked where
  world := (World.init conf).addUser user
  live := insert user.id ∅

theorem run_firstUser (overflow : Overflow) (conf : GameServerConf) (user : User)
    (hin : InWorld user.position) :
    Run (trackedLts overflow conf)
      [({ world := World.init conf, live := ∅ }, some (.addUser user))]
      (Tracked.firstUser conf user) := by
  refine Run.next (Run.start rfl) ⟨?_,rfl⟩
  exact WorldStep.op (a := .addUser user) ⟨fresh_init conf _,hin⟩

theorem users_conserved_first_user :
    Run.Always Tracked.Conserved
      [({ world := World.init .master, live := ∅ },
        some (WorldOp.addUser (User.randomWithoutVelocity 1 (Vector2.new 5 7))))]
      (Tracked.firstUser .master (User.randomWithoutVelocity 1 (Vector2.new 5 7))) := by
  have hrun := run_firstUser .panics .master
    (User.randomWithoutVelocity 1 (Vector2.new 5 7)) (by decide)
  apply (users_conserved_iff hrun).mpr
  intro p hp
  obtain rfl := List.mem_singleton.mp hp
  have hn : ¬ Unmapped (Vector2.new 5 7) := by decide
  exact hn

/-- A user that starts at the origin reaches the index only. -/
theorem users_not_conserved_at_origin :
    ∃ past, Run (trackedLts .panics .master) past
        (Tracked.firstUser .master (User.randomWithoutVelocity 1 Vector2.zero)) ∧
      ¬ (Tracked.firstUser .master (User.randomWithoutVelocity 1 Vector2.zero)).Conserved := by
  refine ⟨_,run_firstUser .panics .master _ (by decide),?_⟩
  intro hc
  have hlive : (1 : UserId) ∈ mapIds
      (Tracked.firstUser .master (User.randomWithoutVelocity 1 Vector2.zero)).world.maps := by
    rw [hc.maps]
    decide
  have hin : InWorld (User.randomWithoutVelocity 1 Vector2.zero).position := by decide
  rcases (mapIds_addUser (settled_init .master) hin).mp hlive with hold | ⟨-,hn⟩
  · rw [mapIds_init] at hold
    cases hold
  · exact hn (by decide)

end GameServer.Server
