import GameServer.Server.Cover

/-! # A tick moves everyone once

What a tick leaves in the scenes is a function of what the scenes held: every entry
moved once and put where its new position says. Nothing depends on the order in which
the maps and their users are enumerated.
-/
namespace GameServer.Server
open Common CommonServer Library

/-- A map without its users. -/
def Map.frame (map : Map) : Map := { map with scenes := { users := ∅ } }

theorem Map.same_of_frame {m m' : Map} (h : m.frame = m'.frame)
    (hu : m.scenes.users.Same m'.scenes.users) : m.Same m' := by
  obtain ⟨tag,scenes,p,q⟩ := m
  obtain ⟨tag',scenes',p',q'⟩ := m'
  unfold Map.frame at h
  injection h with ht hs hp hq
  exact ⟨by rw [ht, hp, hq],hu⟩

theorem Map.Same.frame_eq {m m' : Map} (h : m.Same m') : m'.frame = m.frame := by
  rw [h.rest]
  rfl

def frames (maps : Maps) (tag : MapTag) : Option Map := (maps.lookup tag).map Map.frame

theorem frames_adjust {maps : Maps} {t : MapTag} {f : Map → Map} (hf : ∀ map, (f map).frame = map.frame)
    (tag : MapTag) : frames (maps.adjust t f) tag = frames maps tag := by
  unfold frames
  rw [AList.lookup_adjust]
  split
  · rw [Option.map_map]
    congr 1
    funext map
    exact hf map
  · rfl

theorem frames_movedMaps (w : World) (tag : MapTag) : frames w.movedMaps tag = frames w.maps tag := by
  have hshift : frames w.shiftMaps tag = frames w.maps tag := by
    unfold frames World.shiftMaps
    rw [AList.lookup_mapVal, Option.map_map]
    rfl
  have hchanges : ∀ (cs : List ChangeMap) (maps : Maps),
      frames (cs.foldl applyChange maps) tag = frames maps tag := by
    intro cs
    induction cs with
    | nil => exact fun maps => rfl
    | cons c cs ih =>
      intro maps
      have hremove : ∀ map : Map, (map.removeUser c.user.id).frame = map.frame := fun _ => rfl
      have hinsert : ∀ map : Map, (map.insertUser c.user).frame = map.frame := fun _ => rfl
      rw [List.foldl_cons, ih]
      unfold applyChange
      rw [frames_adjust hinsert, frames_adjust hremove]
  exact (hchanges _ _).trans hshift

/-- Maps with the same frames and the same users are the same maps. -/
theorem rel_same_of_frames {maps maps' : Maps} {tag : MapTag} (hf : frames maps tag = frames maps' tag)
    (hu : ∀ id, userAt maps tag id = userAt maps' tag id) :
    Option.Rel Map.Same (maps.lookup tag) (maps'.lookup tag) := by
  unfold frames at hf
  unfold userAt at hu
  cases hm : maps.lookup tag with
  | none =>
    rw [hm, Option.map_none] at hf
    rw [Option.map_eq_none_iff.mp hf.symm]
    exact Option.Rel.none
  | some m =>
    rw [hm, Option.map_some] at hf
    obtain ⟨m',hm',hframe⟩ := Option.map_eq_some_iff.mp hf.symm
    rw [hm']
    refine Option.Rel.some (Map.same_of_frame hframe.symm ?_)
    intro id
    simpa only [hm, hm', Option.bind_some] using hu id

namespace World.Same
variable {w w' : World}

theorem frames_eq (h : w.Same w') (tag : MapTag) : frames w'.maps tag = frames w.maps tag := by
  have hm := h.maps tag
  unfold frames
  generalize w.maps.lookup tag = o at hm
  generalize w'.maps.lookup tag = o' at hm
  cases hm with
  | none => rfl
  | some hs => exact congrArg some hs.frame_eq

theorem tickTime_eq (h : w.Same w') : w'.tickTime = w.tickTime := by rw [h.rest]

end World.Same

theorem userCount_eq {w w' : World}
    (h : ∀ tag, Option.Rel Map.Same (w.maps.lookup tag) (w'.maps.lookup tag)) :
    w'.userCount = w.userCount := by
  unfold World.userCount
  congr 1
  apply List.Perm.sum_eq
  apply AList.values_map_perm
  intro tag
  have hm := h tag
  generalize w.maps.lookup tag = o at hm
  generalize w'.maps.lookup tag = o' at hm
  cases hm with
  | none => rfl
  | some hs => exact congrArg some (AList.same_iff_perm.mp hs.users).length_eq.symm

section
variable {w w' : World}

/-- What a tick leaves under a tag depends on the stored entries only. -/
theorem userAt_movedMaps_of_same (h : w.Settled) (hs : w.Same w') (tag : MapTag) (id : UserId) :
    userAt w'.movedMaps tag id = userAt w.movedMaps tag id := by
  apply Option.ext
  intro u
  rw [(settled_of_same h hs).userAt_movedMaps, h.userAt_movedMaps]
  simp only [hs.userAt_eq, hs.tickTime_eq]

/-- The outcome of a tick does not depend on any enumeration order. -/
theorem update_same (h : w.Settled) (hs : w.Same w') : w.update.state.Same w'.update.state := by
  have h' := settled_of_same h hs
  have hmaps : ∀ tag, Option.Rel Map.Same (w.movedMaps.lookup tag) (w'.movedMaps.lookup tag) := by
    intro tag
    apply rel_same_of_frames
    · rw [frames_movedMaps, frames_movedMaps, hs.frames_eq]
    · exact fun id => (userAt_movedMaps_of_same h hs tag id).symm
  have husers : (collectUsers w.movedMaps).Same (collectUsers w'.movedMaps) := by
    intro id
    apply Option.ext
    intro u
    rw [h.lookup_collectUsers_moved, h'.lookup_collectUsers_moved]
    simp only [userAt_movedMaps_of_same h hs]
  rw [h.update_eq, h'.update_eq]
  refine ⟨?_,hmaps,husers,hs.clientMap⟩
  have hcount : ({ w' with maps := w'.movedMaps, users := collectUsers w'.movedMaps } : World).userCount =
      ({ w with maps := w.movedMaps, users := collectUsers w.movedMaps } : World).userCount :=
    userCount_eq hmaps
  simp only [Outcome.ok_state, World.updateStateInfo, hcount]
  rw [hs.rest]

theorem userAt_update (h : w.Settled) {tag : MapTag} {id : UserId} {u' : User} :
    userAt w.update.state.maps tag id = some u' ↔ ∃ t u, userAt w.maps t id = some u ∧
      u' = u.shift w.tickTime ∧ tag = pos2mapTag w.areaLen u'.position ∧ tag ∈ w.maps := by
  rw [h.update_eq, h.area]
  have hkeys : tag ∈ w.maps ↔ tag ∈ initTags := h.layout.keys tag
  rw [hkeys]
  exact h.userAt_movedMaps

end

/-- The whole effect of a tick on a reachable world. Each entry it leaves is one old entry
moved once, under the tag of its new position; an old entry is lost only where no map has
that tag; the index is the union of the scenes; and no enumeration order matters. -/
theorem tick_moves_once {overflow : Overflow} {conf : GameServerConf} {w : World}
    (h : (roamLts overflow conf).Reachable w) :
    w.update.panic = none ∧
    (∀ tag id u', userAt w.update.state.maps tag id = some u' →
      tag = pos2mapTag w.areaLen u'.position ∧
      ∃! e : MapTag × UserId × User, userAt w.maps e.1 e.2.1 = some e.2.2 ∧
        u' = e.2.2.shift w.tickTime ∧ id = e.2.1 ∧ u'.id = e.2.2.id ∧ u'.velocity = e.2.2.velocity ∧
        u'.money = e.2.2.money) ∧
    (∀ t id u, userAt w.maps t id = some u →
      (∀ tag tag' v v', userAt w.update.state.maps tag id = some v →
        userAt w.update.state.maps tag' id = some v' → tag = tag' ∧ v = v') ∧
      (pos2mapTag w.areaLen (u.shift w.tickTime).position ∈ w.maps ↔
        ∃ tag, userAt w.update.state.maps tag id = some (u.shift w.tickTime))) ∧
    (∀ id u, w.update.state.users.lookup id = some u ↔
      ∃ tag, userAt w.update.state.maps tag id = some u) ∧
    ∀ w', w.Same w' → w'.update.panic = none ∧ w.update.state.Same w'.update.state := by
  have hs := settled_of_reachable h
  have hafter := settled_update hs
  refine ⟨?_,?_,?_,?_,?_⟩
  · rw [hs.update_eq]
    rfl
  · intro tag id u' hu'
    obtain ⟨t,u,hu,rfl,ht,-⟩ := (userAt_update hs).mp hu'
    refine ⟨ht,⟨t,id,u⟩,⟨hu,rfl,rfl,User.shift_id _ _,User.shift_velocity _ _,User.shift_money _ _⟩,?_⟩
    rintro ⟨t₂,id₂,u₂⟩ ⟨hu₂,-,hid,-⟩
    dsimp only at hu₂ hid
    subst hid
    rw [hs.unique hu₂ hu, hs.unique_user hu₂ hu]
  · intro t id u hu
    refine ⟨fun tag tag' v v' hv hv' => ⟨hafter.unique hv hv',hafter.unique_user hv hv'⟩,?_⟩
    constructor
    · exact fun hin => ⟨_,(userAt_update hs).mpr ⟨t,u,hu,rfl,rfl,hin⟩⟩
    · rintro ⟨tag,hv⟩
      obtain ⟨t₂,u₂,hu₂,he,ht,hin⟩ := (userAt_update hs).mp hv
      rwa [← ht]
  · intro id u
    rw [hs.update_eq]
    exact hs.lookup_collectUsers_moved
  · intro w' hsame
    refine ⟨?_,update_same hs hsame⟩
    rw [(settled_of_same hs hsame).update_eq]
    rfl

/-- A player that crosses a border with its next step. -/
def runner : User :=
  { id := 1, position := Vector2.new 199999 7, velocity := Velocity.new (Vector2.new 1 0) 100, money := 0 }

theorem stored_of_mapped (conf : GameServerConf) {user : User} (hin : InWorld user.position)
    (hn : ¬ Unmapped user.position) : userAt ((World.init conf).addUser user).maps
      (pos2mapTag areaLength user.position) user.id = some user := by
  rw [userAt_addUser]
  exact if_pos ⟨rfl,rfl,((layout_init conf).keys _).mpr ((pos2mapTag_mem_iff hin).mpr hn)⟩

theorem tick_moves_once_runner : ∃ tag, userAt ((World.init .master).addUser runner).update.state.maps tag 1 =
    some (runner.shift (1 / 50)) := by
  have hreach := roam_addUser_init .wraps .master runner
  have hat : userAt ((World.init .master).addUser runner).maps
      (pos2mapTag areaLength runner.position) runner.id = some runner :=
    stored_of_mapped .master (by decide) (by decide)
  have hin : InWorld (runner.shift (1 / 50)).position := by decide +kernel
  have hn : ¬ Unmapped (runner.shift (1 / 50)).position := by decide +kernel
  apply (((tick_moves_once hreach).2.2.1 _ _ _ hat).2).mp
  exact ((settled_of_reachable hreach).layout.keys _).mpr ((pos2mapTag_mem_iff hin).mpr hn)

end GameServer.Server
