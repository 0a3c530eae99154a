import GameServer.Server.Placement

/-! # One tick of the world

On a valid world the deferred map changes never meet a missing map, and the tick
as a whole does one thing to each stored user: it is shifted and put where its
new position says, unless no map has that tag.
-/
namespace GameServer.Server
open Common CommonServer Library

/-- The writes of one map change whose old map exists. -/
def applyChange (maps : Maps) (c : ChangeMap) : Maps :=
  (maps.adjust c.oldMaptag (Map.removeUser c.user.id)).adjust c.newMaptag (Map.insertUser c.user)

theorem changeMap_of_mem {maps : Maps} {c : ChangeMap} (h : c.oldMaptag ∈ maps) :
    changeMap maps c = Outcome.ok (applyChange maps c) := by
  obtain ⟨map,hm⟩ := AList.exists_lookup h
  unfold changeMap
  rw [hm]
  rfl

theorem mem_applyChange {maps : Maps} {c : ChangeMap} {tag : MapTag} :
    tag ∈ applyChange maps c ↔ tag ∈ maps := AList.mem_adjust.trans AList.mem_adjust

theorem userAt_applyChange (maps : Maps) (c : ChangeMap) (tag : MapTag) (id : UserId) :
    userAt (applyChange maps c) tag id =
      if id = c.user.id then
        if tag = c.newMaptag ∧ tag ∈ maps then some c.user
        else if tag = c.oldMaptag then none else userAt maps tag id
      else userAt maps tag id := by
  unfold applyChange
  rw [userAt_insertUser, userAt_removeUser]
  simp only [AList.mem_adjust]
  by_cases hid : id = c.user.id
  · simp [hid]
  · simp [hid]

theorem userAt_foldl_of_no_change {cs : List ChangeMap} {id : UserId} (h : ∀ c ∈ cs, c.user.id ≠ id)
    (maps : Maps) (tag : MapTag) : userAt (cs.foldl applyChange maps) tag id = userAt maps tag id := by
  induction cs generalizing maps with
  | nil => rfl
  | cons c cs ih =>
    obtain ⟨hc,hcs⟩ := List.forall_mem_cons.mp h
    rw [List.foldl_cons, ih hcs, userAt_applyChange, if_neg hc.symm]

/-- Where the change list has one entry per user, each entry has its full effect,
whatever the order. -/
theorem userAt_foldl_of_change {cs : List ChangeMap}
    (hone : ∀ c ∈ cs, ∀ c' ∈ cs, c.user.id = c'.user.id → c = c') {c : ChangeMap} (hc : c ∈ cs)
    (maps : Maps) (tag : MapTag) :
    userAt (cs.foldl applyChange maps) tag c.user.id =
      if tag = c.newMaptag ∧ tag ∈ maps then some c.user
      else if tag = c.oldMaptag then none else userAt maps tag c.user.id := by
  induction cs generalizing maps with
  | nil => cases hc
  | cons d cs ih =>
    have hrest : ∀ c ∈ cs, ∀ c' ∈ cs, c.user.id = c'.user.id → c = c' := fun c hc c' hc' =>
      hone c (List.mem_cons_of_mem _ hc) c' (List.mem_cons_of_mem _ hc')
    rw [List.foldl_cons]
    by_cases hin : c ∈ cs
    · rw [ih hrest hin, userAt_applyChange]
      simp only [mem_applyChange]
      by_cases hd : c.user.id = d.user.id
      · have he := hone c hc d List.mem_cons_self hd
        subst he
        rw [if_pos rfl]
        by_cases hnew : tag = c.newMaptag ∧ tag ∈ maps
        · rw [if_pos hnew, if_pos hnew]
        · by_cases hold : tag = c.oldMaptag
          · simp only [if_neg hnew, if_pos hold]
          · simp only [if_neg hnew, if_neg hold]
      · rw [if_neg hd]
    · have hd : c = d := (List.mem_cons.mp hc).resolve_right hin
      subst hd
      have hno : ∀ c' ∈ cs, c'.user.id ≠ c.user.id := by
        intro c' hc' he
        have hcc := hone c' (List.mem_cons_of_mem _ hc') c hc he
        exact hin (hcc ▸ hc')
      rw [userAt_foldl_of_no_change hno, userAt_applyChange, if_pos rfl]

theorem mem_needChangeMapUser {w : World} {c : ChangeMap} :
    c ∈ w.needChangeMapUser ↔ ∃ tag id u, userAt w.maps tag id = some u ∧ w.needChange u = some c := by
  simp only [World.needChangeMapUser, List.mem_flatMap, List.mem_filterMap, AList.mem_values_iff]
  constructor
  · rintro ⟨map,⟨tag,hmap⟩,u,⟨id,hu⟩,hc⟩
    refine ⟨tag,id,u,?_,hc⟩
    unfold userAt
    rw [hmap]
    exact hu
  · rintro ⟨tag,id,u,hu,hc⟩
    obtain ⟨map,hmap,hu⟩ := Option.bind_eq_some_iff.mp hu
    exact ⟨map,⟨tag,hmap⟩,u,⟨id,hu⟩,hc⟩

theorem needChange_some {w : World} {u : User} {c : ChangeMap} (h : w.needChange u = some c) :
    c = { oldMaptag := pos2mapTag w.areaLen u.position
          newMaptag := pos2mapTag w.areaLen (u.shift w.tickTime).position
          user := u.shift w.tickTime } ∧ c.newMaptag ≠ c.oldMaptag := by
  unfold World.needChange at h
  dsimp only at h
  split at h
  · rename_i hne
    cases h
    exact ⟨rfl,hne⟩
  · cases h

theorem needChange_none {w : World} {u : User} (h : w.needChange u = none) :
    pos2mapTag w.areaLen (u.shift w.tickTime).position = pos2mapTag w.areaLen u.position := by
  unfold World.needChange at h
  dsimp only at h
  split at h
  · cases h
  · rename_i he
    exact not_not.mp he

def World.movedMaps (w : World) : Maps := w.needChangeMapUser.foldl applyChange w.shiftMaps

namespace World.Settled
variable {w : World}

theorem change_of (h : w.Settled) {c : ChangeMap} (hc : c ∈ w.needChangeMapUser) :
    ∃ u, userAt w.maps c.oldMaptag c.user.id = some u ∧ w.needChange u = some c := by
  obtain ⟨tag,id,u,hu,hn⟩ := mem_needChangeMapUser.mp hc
  obtain ⟨he,-⟩ := needChange_some hn
  refine ⟨u,?_,hn⟩
  rw [he]
  dsimp only
  rw [User.shift_id, h.ids tag id u hu, h.area, h.placed tag id u hu]
  exact hu

theorem change_unique (h : w.Settled) : ∀ c ∈ w.needChangeMapUser, ∀ c' ∈ w.needChangeMapUser,
    c.user.id = c'.user.id → c = c' := by
  intro c hc c' hc' hid
  obtain ⟨u,hu,hn⟩ := h.change_of hc
  obtain ⟨u',hu',hn'⟩ := h.change_of hc'
  rw [← hid] at hu'
  have he := h.unique_user hu hu'
  subst he
  exact Option.some.inj (hn.symm.trans hn')

/-- No map change meets a missing map. -/
theorem forEach_changeMap (h : w.Settled) :
    Outcome.forEach changeMap w.shiftMaps w.needChangeMapUser = Outcome.ok w.movedMaps := by
  have hkeys : ∀ tag, tag ∈ w.shiftMaps ↔ tag ∈ w.maps := by
    intro tag
    rw [AList.mem_keys, World.shiftMaps, AList.keys_mapVal, ← AList.mem_keys]
  apply Outcome.forEach_ok (I := fun maps => ∀ tag, tag ∈ maps ↔ tag ∈ w.maps) hkeys
  intro maps c hc hmaps
  obtain ⟨u,hu,-⟩ := h.change_of hc
  have hold : c.oldMaptag ∈ maps := (hmaps _).mpr (mem_of_userAt hu)
  exact ⟨changeMap_of_mem hold,fun tag => mem_applyChange.trans (hmaps tag)⟩

theorem update_eq (h : w.Settled) : w.update = Outcome.ok
    { w with maps := w.movedMaps, users := collectUsers w.movedMaps }.updateStateInfo := by
  unfold World.update
  rw [h.forEach_changeMap]
  rfl

/-- What a tick does to the stored users: shifted, and stored under the tag of the
new position if that is the tag of a map. -/
theorem userAt_movedMaps (h : w.Settled) {tag : MapTag} {id : UserId} {u' : User} :
    userAt w.movedMaps tag id = some u' ↔ ∃ t u, userAt w.maps t id = some u ∧
      u' = u.shift w.tickTime ∧ tag = pos2mapTag areaLength u'.position ∧ tag ∈ initTags := by
  have hkeys : ∀ tag, tag ∈ w.shiftMaps ↔ tag ∈ initTags := by
    intro tag
    rw [AList.mem_keys, World.shiftMaps, AList.keys_mapVal, ← AList.mem_keys]
    exact h.layout.keys tag
  constructor
  · intro hu'
    by_cases hex : ∃ c ∈ w.needChangeMapUser, c.user.id = id
    · obtain ⟨c,hc,rfl⟩ := hex
      obtain ⟨u,hu,hn⟩ := h.change_of hc
      obtain ⟨he,-⟩ := needChange_some hn
      unfold World.movedMaps at hu'
      rw [userAt_foldl_of_change h.change_unique hc] at hu'
      split at hu'
      · rename_i hnew
        cases hu'
        refine ⟨_,u,hu,by rw [he],?_,(hkeys tag).mp hnew.2⟩
        rw [hnew.1, he, h.area]
      · split at hu'
        · cases hu'
        · rename_i hold
          rw [userAt_shiftMaps] at hu'
          obtain ⟨u₂,hu₂,-⟩ := Option.map_eq_some_iff.mp hu'
          exact absurd (h.unique hu₂ hu) hold
    · have hno : ∀ c ∈ w.needChangeMapUser, c.user.id ≠ id := fun c hc he => hex ⟨c,hc,he⟩
      unfold World.movedMaps at hu'
      rw [userAt_foldl_of_no_change hno, userAt_shiftMaps] at hu'
      obtain ⟨u,hu,rfl⟩ := Option.map_eq_some_iff.mp hu'
      refine ⟨tag,u,hu,rfl,?_,h.mem_initTags_of_userAt hu⟩
      cases hn : w.needChange u with
      | some c =>
        have hc := mem_needChangeMapUser.mpr ⟨tag,id,u,hu,hn⟩
        have hid : c.user.id = id := by
          rw [(needChange_some hn).1]
          exact (User.shift_id _ _).trans (h.ids tag id u hu)
        exact absurd hid (hno c hc)
      | none =>
        have he := needChange_none hn
        rw [h.area] at he
        rw [he, h.placed tag id u hu]
  · rintro ⟨t,u,hu,rfl,ht,hin⟩
    unfold World.movedMaps
    cases hn : w.needChange u with
    | some c =>
      have hc := mem_needChangeMapUser.mpr ⟨t,id,u,hu,hn⟩
      obtain ⟨he,-⟩ := needChange_some hn
      have hid : id = c.user.id := by
        rw [he]
        exact (h.ids t id u hu).symm.trans (User.shift_id _ _).symm
      have hnew : tag = c.newMaptag := by rw [ht, he, h.area]
      rw [hid, userAt_foldl_of_change h.change_unique hc, if_pos ⟨hnew,(hkeys tag).mpr hin⟩, he]
    | none =>
      have hno : ∀ c ∈ w.needChangeMapUser, c.user.id ≠ id := by
        rintro c hc rfl
        obtain ⟨u₂,hu₂,hn₂⟩ := h.change_of hc
        rw [h.unique_user hu hu₂, hn₂] at hn
        cases hn
      have htag : tag = t := by
        have he := needChange_none hn
        rw [h.area] at he
        rw [ht, he, h.placed t id u hu]
      rw [userAt_foldl_of_no_change hno, userAt_shiftMaps, htag, hu]
      rfl

/-- The rebuilt index holds the one entry of each user. -/
theorem lookup_collectUsers_moved (h : w.Settled) {id : UserId} {u : User} :
    (collectUsers w.movedMaps).lookup id = some u ↔ ∃ tag, userAt w.movedMaps tag id = some u := by
  constructor
  · exact lookup_collectUsers_some
  · rintro ⟨tag,hu⟩
    cases hl : (collectUsers w.movedMaps).lookup id with
    | none =>
      rw [lookup_collectUsers_none.mp hl tag] at hu
      cases hu
    | some v =>
      obtain ⟨tag',hv⟩ := lookup_collectUsers_some hl
      obtain ⟨t,u₀,hu₀,he,-⟩ := h.userAt_movedMaps.mp hu
      obtain ⟨t',v₀,hv₀,he',-⟩ := h.userAt_movedMaps.mp hv
      rw [he, he', h.unique_user hu₀ hv₀]

end World.Settled

theorem layout_applyChange {maps : Maps} (h : Layout maps) (c : ChangeMap) :
    Layout (applyChange maps c) := by
  have hremoved : Layout (maps.adjust c.oldMaptag (Map.removeUser c.user.id)) :=
    h.adjust _ (fun _ => rfl)
  exact hremoved.adjust _ (fun _ => rfl)

theorem layout_movedMaps {w : World} (h : Layout w.maps) : Layout w.movedMaps := by
  have hs : Layout w.shiftMaps := h.mapVal (fun _ _ => rfl)
  unfold World.movedMaps
  generalize w.shiftMaps = maps at hs
  induction w.needChangeMapUser generalizing maps with
  | nil => exact hs
  | cons c cs ih => exact ih _ (layout_applyChange hs c)

theorem settled_update {w : World} (h : w.Settled) : w.update.state.Settled := by
  rw [h.update_eq, Outcome.ok_state]
  unfold World.updateStateInfo
  refine ⟨h.area,layout_movedMaps h.layout,?_,?_,?_⟩
  · intro tag id u hu
    obtain ⟨t,u₀,hu₀,rfl,-⟩ := h.userAt_movedMaps.mp hu
    exact (User.shift_id _ _).trans (h.ids t id u₀ hu₀)
  · intro tag id u hu
    obtain ⟨t,u₀,hu₀,-,ht,-⟩ := h.userAt_movedMaps.mp hu
    exact ht.symm
  · intro tag id u hu
    exact ⟨u,h.lookup_collectUsers_moved.mpr ⟨tag,hu⟩,rfl,rfl⟩

theorem valid_update {w : World} (h : w.Valid) : w.update.state.Valid := by
  refine ⟨settled_update h.toSettled,?_,?_⟩
  · rw [h.update_eq]
    intro tag id u hu
    obtain ⟨t,u₀,hu₀,rfl,-⟩ := h.userAt_movedMaps.mp hu
    exact User.shift_inWorld (h.mapsIn t id u₀ hu₀) _
  · rw [h.update_eq]
    intro id u hu
    obtain ⟨tag,hu⟩ := h.lookup_collectUsers_moved.mp hu
    obtain ⟨t,u₀,hu₀,rfl,-⟩ := h.userAt_movedMaps.mp hu
    exact User.shift_inWorld (h.mapsIn t id u₀ hu₀) _

end GameServer.Server
