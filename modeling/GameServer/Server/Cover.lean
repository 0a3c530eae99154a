import GameServer.Server.Sync

/-! # A query is a full scan

The cover of a rectangle names every cell between the cells of its corners, each
once. Cell numbers grow with the coordinates, so the cell of a stored user inside
the rectangle is in the cover, and the filter on positions leaves nothing else.
-/
namespace GameServer.Server
open Common CommonServer Library

/-! ## The cells of a cover -/

/-- A tag with the letter its cell numbers have in `World::init`. -/
def MapTagOf (tag : MapTag) : Prop := tag.fieldId = getFieldIdFromLenOrPos tag.xLen tag.yLen

section
variable {xLen insideStart insideEnd outEnd : ℤ} {tag : MapTag}

theorem mem_coverColumn {fuel : ℕ} {yLen : ℤ} (he : insideEnd ≠ 0)
    (h : tag ∈ coverColumn xLen insideEnd fuel yLen) :
    tag.xLen = xLen ∧ insideEnd ≤ tag.yLen ∧ tag.yLen ≤ yLen ∧ tag.yLen ≠ 0 := by
  induction fuel generalizing yLen with
  | zero => cases h
  | succ fuel ih =>
    simp only [coverColumn] at h
    split at h
    · rename_i hlt
      rcases List.mem_cons.mp h with rfl | hrest
      · refine ⟨rfl,?_,?_,?_⟩ <;> dsimp only <;> split <;> omega
      · obtain ⟨hx,hlo,hhi,hne⟩ := ih hrest
        refine ⟨hx,hlo,?_,hne⟩
        split at hhi <;> omega
    · cases h

/-- The column goes down to its last row when it has fuel for every row. -/
theorem mem_coverColumn_of_between {fuel : ℕ} {yLen : ℤ} (ht : MapTagOf tag)
    (hx : tag.xLen = xLen) (hlo : insideEnd ≤ tag.yLen) (hhi : tag.yLen ≤ yLen) (hne : tag.yLen ≠ 0)
    (hfuel : (yLen + 1 - insideEnd).toNat ≤ fuel) : tag ∈ coverColumn xLen insideEnd fuel yLen := by
  induction fuel generalizing yLen with
  | zero => omega
  | succ fuel ih =>
    have hlt : insideEnd - 1 < yLen := by omega
    simp only [coverColumn, if_pos hlt]
    by_cases htop : tag.yLen = if yLen = 0 then yLen - 1 else yLen
    · apply List.mem_cons.mpr
      left
      obtain ⟨fieldId,x,y⟩ := tag
      simp only [MapTagOf] at ht
      subst hx htop
      rw [ht]
    · apply List.mem_cons_of_mem
      apply ih
      · split at htop <;> split <;> omega
      · split <;> omega

theorem nodup_coverColumn (he : insideEnd ≠ 0) (fuel : ℕ) (yLen : ℤ) :
    (coverColumn xLen insideEnd fuel yLen).Nodup := by
  induction fuel generalizing yLen with
  | zero => exact List.nodup_nil
  | succ fuel ih =>
    simp only [coverColumn]
    split
    · refine List.nodup_cons.mpr ⟨?_,ih _⟩
      intro hmem
      obtain ⟨-,-,hhi,-⟩ := mem_coverColumn he hmem
      dsimp only at hhi
      omega
    · exact List.nodup_nil

theorem mem_coverColumns {fuel : ℕ} (ho : outEnd ≠ 0) (he : insideEnd ≠ 0)
    (h : tag ∈ coverColumns outEnd insideStart insideEnd fuel xLen) :
    xLen ≤ tag.xLen ∧ tag.xLen ≤ outEnd ∧ tag.xLen ≠ 0 ∧
      insideEnd ≤ tag.yLen ∧ tag.yLen ≤ insideStart ∧ tag.yLen ≠ 0 := by
  induction fuel generalizing xLen with
  | zero => cases h
  | succ fuel ih =>
    simp only [coverColumns] at h
    split at h
    · rcases List.mem_append.mp h with hcol | hrest
      · obtain ⟨hx,hy⟩ := mem_coverColumn he hcol
        refine ⟨?_,?_,?_,hy⟩ <;> split at hx <;> omega
      · obtain ⟨hlo,hrest⟩ := ih hrest
        refine ⟨?_,hrest⟩
        split at hlo <;> omega
    · cases h

theorem mem_coverColumns_of_between {fuel : ℕ} (ht : MapTagOf tag)
    (hxlo : xLen ≤ tag.xLen) (hxhi : tag.xLen ≤ outEnd) (hx : tag.xLen ≠ 0)
    (hylo : insideEnd ≤ tag.yLen) (hyhi : tag.yLen ≤ insideStart) (hy : tag.yLen ≠ 0)
    (hfuel : (outEnd + 1 - xLen).toNat ≤ fuel) :
    tag ∈ coverColumns outEnd insideStart insideEnd fuel xLen := by
  induction fuel generalizing xLen with
  | zero => omega
  | succ fuel ih =>
    have hlt : xLen < outEnd + 1 := by omega
    simp only [coverColumns, if_pos hlt]
    by_cases hfirst : tag.xLen = if xLen = 0 then xLen + 1 else xLen
    · exact List.mem_append_left _ (mem_coverColumn_of_between ht hfirst hylo hyhi hy le_rfl)
    · apply List.mem_append_right
      apply ih
      · split at hfirst <;> split <;> omega
      · split <;> omega

theorem nodup_coverColumns (ho : outEnd ≠ 0) (he : insideEnd ≠ 0) (fuel : ℕ) (xLen : ℤ) :
    (coverColumns outEnd insideStart insideEnd fuel xLen).Nodup := by
  induction fuel generalizing xLen with
  | zero => exact List.nodup_nil
  | succ fuel ih =>
    simp only [coverColumns]
    split
    · apply List.Nodup.append (nodup_coverColumn he _ _) (ih _)
      intro tag hcol hrest
      obtain ⟨hx,-⟩ := mem_coverColumn he hcol
      obtain ⟨hlo,-⟩ := mem_coverColumns ho he hrest
      omega
    · exact List.nodup_nil

end

theorem nodup_getCoverMapByScope {w : World} (ha : w.areaLen = areaLength) (scope : RectScope) :
    (w.getCoverMapByScope scope).Nodup := by
  unfold World.getCoverMapByScope
  rw [ha]
  exact nodup_coverColumns (lenOf_ne_zero areaLength_pos _) (lenOf_ne_zero areaLength_pos _) _ _

/-- `left_up.x <= x <= right_down.x` and `right_down.y <= y <= left_up.y` -/
def InScope (scope : RectScope) (p : Vector2) : Prop :=
  scope.leftUp.x ≤ p.x ∧ p.x ≤ scope.rightDown.x ∧ scope.rightDown.y ≤ p.y ∧ p.y ≤ scope.leftUp.y

instance (scope : RectScope) (p : Vector2) : Decidable (InScope scope p) := by
  unfold InScope; infer_instance

/-- The cell of a position inside the rectangle is in the cover. -/
theorem pos2mapTag_mem_cover {w : World} (ha : w.areaLen = areaLength) {scope : RectScope} {p : Vector2}
    (hp : InScope scope p) (hmap : pos2mapTag areaLength p ∈ initTags) :
    pos2mapTag areaLength p ∈ w.getCoverMapByScope scope := by
  obtain ⟨hx,hx',hy,hy'⟩ := hp
  unfold World.getCoverMapByScope
  rw [ha]
  apply mem_coverColumns_of_between (mem_initTags.mp hmap).2.2
  · exact lenOf_mono areaLength_pos hx
  · exact lenOf_mono areaLength_pos hx'
  · exact lenOf_ne_zero areaLength_pos _
  · exact lenOf_mono areaLength_pos hy
  · exact lenOf_mono areaLength_pos hy'
  · exact lenOf_ne_zero areaLength_pos _
  · exact le_rfl

/-! ## The users of a query -/

def World.storedUsers (w : World) : List User :=
  w.maps.values.flatMap (fun map => map.scenes.users.values)

/-- The scenes of a world that was placed well: each entry under its id, in the one map
of its position. -/
structure Placed (maps : Maps) : Prop where
  layout : Layout maps
  ids : ∀ tag id u, userAt maps tag id = some u → u.id = id
  placed : ∀ tag id u, userAt maps tag id = some u → pos2mapTag areaLength u.position = tag
  unique : ∀ tag tag' id u u', userAt maps tag id = some u → userAt maps tag' id = some u' → tag = tag'

theorem World.Settled.placedMaps {w : World} (h : w.Settled) : Placed w.maps :=
  ⟨h.layout,h.ids,h.placed,fun _ _ _ _ _ hu hu' => h.unique hu hu'⟩

theorem Placed.of_userAt_eq {maps maps' : Maps} (h : Placed maps) (hl : Layout maps')
    (he : ∀ tag id, userAt maps' tag id = userAt maps tag id) : Placed maps' where
  layout := hl
  ids tag id u hu := h.ids tag id u (he tag id ▸ hu)
  placed tag id u hu := h.placed tag id u (he tag id ▸ hu)
  unique tag tag' id u u' hu hu' := h.unique tag tag' id u u' (he tag id ▸ hu) (he tag' id ▸ hu')

theorem userAt_of_lookup {maps : Maps} {tag : MapTag} {map : Map} (hm : maps.lookup tag = some map)
    (id : UserId) : userAt maps tag id = map.scenes.users.lookup id := by
  unfold userAt
  rw [hm]
  rfl

namespace Placed
variable {maps : Maps}

theorem userAt_of_mem_values (h : Placed maps) {tag : MapTag} {map : Map}
    (hm : maps.lookup tag = some map) {u : User} (hu : u ∈ map.scenes.users.values) :
    userAt maps tag u.id = some u := by
  obtain ⟨id,hid⟩ := AList.mem_values_iff.mp hu
  have hat : userAt maps tag id = some u := (userAt_of_lookup hm id).trans hid
  have he := h.ids tag id u hat
  subst he
  exact hat

theorem nodup_values (h : Placed maps) {tag : MapTag} {map : Map} (hm : maps.lookup tag = some map) :
    map.scenes.users.values.Nodup := by
  unfold AList.values
  apply List.Nodup.map_on _ map.scenes.users.nodupKeys.nodup
  rintro ⟨id,u⟩ hu ⟨id',u'⟩ hu' he
  have hid : u.id = id := h.ids tag id u
    ((userAt_of_lookup hm id).trans (AList.mem_entries_iff.mp hu))
  have hid' : u'.id = id' := h.ids tag id' u'
    ((userAt_of_lookup hm id').trans (AList.mem_entries_iff.mp hu'))
  dsimp only at he
  subst he
  rw [← hid, ← hid']

theorem values_disjoint (h : Placed maps) {tag tag' : MapTag} {map map' : Map}
    (hm : maps.lookup tag = some map) (hm' : maps.lookup tag' = some map') (hne : tag ≠ tag') {u : User}
    (hu : u ∈ map.scenes.users.values) (hu' : u ∈ map'.scenes.users.values) : False :=
  hne (h.unique tag tag' u.id u u (h.userAt_of_mem_values hm hu) (h.userAt_of_mem_values hm' hu'))

end Placed

section
variable {w : World}

theorem mem_storedUsers {u : User} :
    u ∈ w.storedUsers ↔ ∃ tag id, userAt w.maps tag id = some u := by
  simp only [World.storedUsers, List.mem_flatMap, AList.mem_values_iff]
  constructor
  · rintro ⟨map,⟨tag,hm⟩,id,hid⟩
    exact ⟨tag,id,(userAt_of_lookup hm id).trans hid⟩
  · rintro ⟨tag,id,hu⟩
    obtain ⟨map,hm,hid⟩ := Option.bind_eq_some_iff.mp hu
    exact ⟨map,⟨tag,hm⟩,id,hid⟩

theorem nodup_storedUsers (h : Placed w.maps) : w.storedUsers.Nodup := by
  have hkeys : (w.maps.entries.map Sigma.fst).Nodup := w.maps.nodupKeys
  have hpair := List.pairwise_map.mp hkeys
  unfold World.storedUsers AList.values
  rw [List.flatMap_map]
  refine List.nodup_flatMap.mpr ⟨?_,?_⟩
  · rintro ⟨tag,map⟩ hmem
    exact h.nodup_values (AList.mem_entries_iff.mp hmem)
  · refine hpair.imp_of_mem ?_
    rintro ⟨tag,map⟩ ⟨tag',map'⟩ hm hm' hne u hu hu'
    exact h.values_disjoint (AList.mem_entries_iff.mp hm) (AList.mem_entries_iff.mp hm') hne hu hu'

theorem mem_query (ha : w.areaLen = areaLength) (h : Placed w.maps) {scope : RectScope} {u : User} :
    u ∈ w.query scope ↔ (∃ tag id, userAt w.maps tag id = some u) ∧ InScope scope u.position := by
  simp only [World.query, RectScope.toFullRectScope, List.mem_flatMap]
  constructor
  · rintro ⟨tag,-,hu⟩
    cases hm : w.maps.lookup tag with
    | none =>
      rw [hm] at hu
      cases hu
    | some map =>
      rw [hm] at hu
      obtain ⟨hv,hin⟩ := List.mem_filter.mp hu
      obtain ⟨hx,hx',hy,hy'⟩ := of_decide_eq_true hin
      exact ⟨⟨tag,u.id,h.userAt_of_mem_values hm hv⟩,hx,hx',hy',hy⟩
  · rintro ⟨⟨tag,id,hu⟩,hin⟩
    have htag := h.placed tag id u hu
    have hinit : tag ∈ initTags := (h.layout.keys tag).mp (mem_of_userAt hu)
    obtain ⟨map,hm,hid⟩ := Option.bind_eq_some_iff.mp hu
    subst htag
    refine ⟨_,pos2mapTag_mem_cover ha hin hinit,?_⟩
    rw [hm]
    refine List.mem_filter.mpr ⟨AList.mem_values_iff.mpr ⟨id,hid⟩,?_⟩
    obtain ⟨hx,hx',hy,hy'⟩ := hin
    exact decide_eq_true ⟨hx,hx',hy',hy⟩

theorem nodup_query (ha : w.areaLen = areaLength) (h : Placed w.maps) (scope : RectScope) :
    (w.query scope).Nodup := by
  unfold World.query
  refine List.nodup_flatMap.mpr ⟨?_,?_⟩
  · intro tag _
    cases hm : w.maps.lookup tag with
    | none => exact List.nodup_nil
    | some map => exact (h.nodup_values hm).filter _
  · refine (nodup_getCoverMapByScope ha scope).imp ?_
    intro tag tag' hne u hu hu'
    cases hm : w.maps.lookup tag with
    | none =>
      simp only [hm] at hu
      cases hu
    | some map =>
      cases hm' : w.maps.lookup tag' with
      | none =>
        simp only [hm'] at hu'
        cases hu'
      | some map' =>
        simp only [hm] at hu
        simp only [hm'] at hu'
        exact h.values_disjoint hm hm' hne (List.mem_filter.mp hu).1 (List.mem_filter.mp hu').1

/-- On well placed scenes a query answers with the stored users inside its rectangle. -/
theorem query_perm_storedUsers (ha : w.areaLen = areaLength) (h : Placed w.maps) (scope : RectScope) :
    (w.query scope).Perm (w.storedUsers.filter (fun u => InScope scope u.position)) := by
  apply (List.perm_ext_iff_of_nodup (nodup_query ha h scope) ((nodup_storedUsers h).filter _)).mpr
  intro u
  rw [mem_query ha h, List.mem_filter, mem_storedUsers, decide_eq_true_eq]

end

/-! ## Users that start anywhere -/

/-- An operation that adds no stored id again, or another enumeration order. -/
inductive RoamStep (overflow : Overflow) : World → Option WorldOp → World → Prop
  | op {w : World} {a : WorldOp} : a.AddsFresh w → RoamStep overflow w (some a) (a.run overflow w).state
  | reorder {w w' : World} : w.Same w' → RoamStep overflow w none w'

def roamLts (overflow : Overflow) (conf : GameServerConf) : Lts World (Option WorldOp) where
  init w := w = World.init conf
  step := RoamStep overflow

theorem settled_of_reachable {overflow : Overflow} {conf : GameServerConf} {w : World}
    (h : (roamLts overflow conf).Reachable w) : w.Settled := by
  obtain ⟨past,hrun⟩ := h
  apply hrun.invariant
  · rintro s rfl
    exact settled_init conf
  · intro s a t hs hst
    cases hst with
    | op ha => exact settled_run hs ha
    | reorder hsame => exact settled_of_same hs hsame

/-- The worlds of a master, and those of a slave that has just applied a snapshot of one. -/
inductive Served (overflow : Overflow) (conf : GameServerConf) : World → Prop
  | own {w : World} : (roamLts overflow conf).Reachable w → Served overflow conf w
  | synced {master slave : World} {dto : WorldSyncDTO} {overflow' : Overflow} {conf' : GameServerConf} :
      (roamLts overflow conf).Reachable master → (slaveLts overflow' conf').Reachable slave →
      (WorldSyncDTO.fromMaps master.maps).SameData dto ∨ master.getWorldSyncDto.SameData dto →
      Served overflow conf (slave.syncFromMaster dto).state

theorem Served.placed {overflow : Overflow} {conf : GameServerConf} {w : World}
    (h : Served overflow conf w) : w.areaLen = areaLength ∧ Placed w.maps := by
  cases h with
  | own hw =>
    have hs := settled_of_reachable hw
    exact ⟨hs.area,hs.placedMaps⟩
  | @synced master slave dto _ _ hm hs hd =>
    have hset := settled_of_reachable hm
    have hgrid := onGrid_of_reachable hs
    have hdata : (WorldSyncDTO.fromMaps master.maps).SameData dto := hd.elim id id
    obtain ⟨-,hscenes⟩ := syncFromMaster_eq hset.layout hgrid hdata
    have hafter := hgrid.syncFromMaster dto
    exact ⟨hafter.area,hset.placedMaps.of_userAt_eq hafter.layout hscenes.userAt_eq⟩

/-- Every query, whatever its rectangle, answers with exactly the stored entries whose
position lies inside, each once. -/
theorem query_eq_scan {overflow : Overflow} {conf : GameServerConf} {w : World}
    (h : Served overflow conf w) (scope : RectScope) :
    (w.query scope).Perm (w.storedUsers.filter (fun u => InScope scope u.position)) :=
  query_perm_storedUsers h.placed.1 h.placed.2 scope

theorem roam_addUser_init (overflow : Overflow) (conf : GameServerConf) (user : User) :
    (roamLts overflow conf).Reachable ((World.init conf).addUser user) :=
  ⟨_,Run.next (Run.start rfl) (RoamStep.op (a := .addUser user) (fresh_init conf _))⟩

theorem query_eq_scan_first_user :
    (((World.init .master).addUser (User.randomWithoutVelocity 1 (Vector2.new 5 7))).query
      { leftUp := Vector2.new (-1) 8, rightDown := Vector2.new 6 (-1) }).Perm
    (((World.init .master).addUser (User.randomWithoutVelocity 1 (Vector2.new 5 7))).storedUsers.filter
      (fun u => InScope { leftUp := Vector2.new (-1) 8, rightDown := Vector2.new 6 (-1) } u.position)) :=
  query_eq_scan (Served.own (roam_addUser_init .wraps .master _)) _

end GameServer.Server
