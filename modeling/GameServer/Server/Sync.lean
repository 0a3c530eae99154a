import GameServer.Server.Runs

/-! # Snapshots of the master's world

A snapshot carries the users of every map under the text of its tag. Applying it
replaces the users of every map it names, so a slave whose maps are those of
`World::init` holds exactly the users of the snapshot afterwards.
-/
namespace GameServer.Server
open Common CommonServer Library

structure WorldSyncDTO where
  data : HashMap String (HashMap UserId User)
  timestamp : Option ℤ

/-- `WorldSyncDTO::from_maps` -/
def WorldSyncDTO.fromMaps (maps : Maps) : WorldSyncDTO where
  data := maps.rekey MapTag.toString (fun map => map.scenes.users)
  timestamp := none

/-- The same users under the same texts, enumerated in any order. -/
def WorldSyncDTO.SameData (d d' : WorldSyncDTO) : Prop :=
  ∀ key, Option.Rel AList.Same (d.data.lookup key) (d'.data.lookup key)

theorem WorldSyncDTO.SameData.refl (d : WorldSyncDTO) : d.SameData d := by
  intro key
  cases d.data.lookup key with
  | none => exact Option.Rel.none
  | some users => exact Option.Rel.some (AList.Same.refl users)

/-- One iteration of the loop in `sync_from_master`. -/
def syncMap (maps : Maps) (e : Σ _ : String, HashMap UserId User) : Outcome Panic Maps :=
  match MapTag.fromString e.1 with
  | none => Outcome.fail maps .mapTagText
  | some tag => Outcome.ok (maps.adjust tag (fun map => { map with scenes := { users := e.2 } }))

namespace World

def getWorldSyncDto (w : World) : WorldSyncDTO where
  data := w.maps.rekey MapTag.toString (fun map => map.scenes.users)
  timestamp := none

def syncFromMaster (w : World) (dto : WorldSyncDTO) : Outcome Panic World :=
  let synced := Outcome.forEach syncMap w.maps dto.data.entries
  match synced.panic with
  | some e => Outcome.fail { w with maps := synced.state } e
  | none => Outcome.ok { w with maps := synced.state }.updateStateInfo

end World

/-! ## The text of a tag -/

theorem fromString_toString_of_mem {tag : MapTag} (h : tag ∈ initTags) :
    MapTag.fromString tag.toString = some tag := by
  obtain ⟨hx,hy,hf⟩ := mem_initTags.mp h
  have hx := mem_cellLens.mp hx
  have hy := mem_cellLens.mp hy
  apply MapTag.fromString_toString
  · rw [hf]
    exact getFieldIdFromLenOrPos_ne_colon _ _
  · omega
  · omega

theorem toString_injOn {tag tag' : MapTag} (h : tag ∈ initTags) (h' : tag' ∈ initTags)
    (he : tag.toString = tag'.toString) : tag = tag' := by
  have ht := fromString_toString_of_mem h
  rw [he, fromString_toString_of_mem h'] at ht
  exact (Option.some.inj ht).symm

/-! ## Replacing the users of the named maps -/

def replaceUsers (maps : Maps) (e : Σ _ : String, HashMap UserId User) : Maps :=
  (MapTag.fromString e.1).elim maps
    (fun tag => maps.adjust tag (fun map => { map with scenes := { users := e.2 } }))

def KeysNamed (l : List (Σ _ : String, HashMap UserId User)) : Prop :=
  ∀ e ∈ l, ∃ tag ∈ initTags, e.1 = tag.toString

theorem forEach_syncMap {l : List (Σ _ : String, HashMap UserId User)} (h : KeysNamed l) (maps : Maps) :
    Outcome.forEach syncMap maps l = Outcome.ok (l.foldl replaceUsers maps) := by
  apply Outcome.forEach_ok (I := fun _ => True) trivial
  intro maps e he _
  obtain ⟨tag,ht,hk⟩ := h e he
  refine ⟨?_,trivial⟩
  simp [syncMap, replaceUsers, hk, fromString_toString_of_mem ht]

theorem lookup_replaceUsers {tag : MapTag} (ht : tag ∈ initTags) {e : Σ _ : String, HashMap UserId User}
    (he : ∃ t ∈ initTags, e.1 = t.toString) (maps : Maps) :
    (replaceUsers maps e).lookup tag = if e.1 = tag.toString then
      (maps.lookup tag).map (fun map => { map with scenes := { users := e.2 } })
      else maps.lookup tag := by
  obtain ⟨t,ht',hk⟩ := he
  have hiff : e.1 = tag.toString ↔ tag = t := by
    rw [hk]
    exact ⟨fun h => (toString_injOn ht' ht h).symm,fun h => by rw [h]⟩
  simp [replaceUsers, hk, fromString_toString_of_mem ht', AList.lookup_adjust, ← hiff]

theorem lookup_foldl_replaceUsers_ne {tag : MapTag} (ht : tag ∈ initTags)
    {l : List (Σ _ : String, HashMap UserId User)} (hl : KeysNamed l)
    (hne : ∀ e ∈ l, e.1 ≠ tag.toString) (maps : Maps) :
    (l.foldl replaceUsers maps).lookup tag = maps.lookup tag := by
  induction l generalizing maps with
  | nil => rfl
  | cons e l ih =>
    obtain ⟨he,hrest⟩ := List.forall_mem_cons.mp hl
    obtain ⟨hn,hns⟩ := List.forall_mem_cons.mp hne
    rw [List.foldl_cons, ih hrest hns, lookup_replaceUsers ht he, if_neg hn]

/-- The one entry for a tag decides the users of its map. -/
theorem lookup_foldl_replaceUsers {tag : MapTag} (ht : tag ∈ initTags)
    {l : List (Σ _ : String, HashMap UserId User)} (hl : KeysNamed l) (hn : l.NodupKeys)
    {users : HashMap UserId User} (hu : (⟨tag.toString,users⟩ : Σ _ : String, HashMap UserId User) ∈ l)
    (maps : Maps) : (l.foldl replaceUsers maps).lookup tag =
      (maps.lookup tag).map (fun map => { map with scenes := { users := users } }) := by
  induction l generalizing maps with
  | nil => cases hu
  | cons e l ih =>
    obtain ⟨he,hrest⟩ := List.forall_mem_cons.mp hl
    obtain ⟨hne,hnd⟩ := List.nodupKeys_cons.mp hn
    rw [List.foldl_cons]
    rcases List.mem_cons.mp hu with rfl | hu
    · have hlater : ∀ e' ∈ l, e'.1 ≠ tag.toString := by
        intro e' he' hk
        have hin : e'.1 ∈ l.keys := List.mem_keys_of_mem he'
        rw [hk] at hin
        exact hne hin
      rw [lookup_foldl_replaceUsers_ne ht hrest hlater, lookup_replaceUsers ht he, if_pos rfl]
    · have hk : e.1 ≠ tag.toString := by
        intro hk
        have hin : tag.toString ∈ l.keys := List.mem_keys_of_mem hu
        rw [← hk] at hin
        exact hne hin
      rw [ih hrest hnd hu, lookup_replaceUsers ht he, if_neg hk]

/-! ## What every node keeps -/

theorem layout_changeMap {maps : Maps} (h : Layout maps) (c : ChangeMap) :
    Layout (changeMap maps c).state := by
  cases hm : maps.lookup c.oldMaptag with
  | none =>
    simp only [changeMap, hm]
    exact h
  | some map =>
    have hin : c.oldMaptag ∈ maps := AList.mem_of_lookup hm
    rw [changeMap_of_mem hin]
    exact layout_applyChange h c

theorem layout_syncMap {maps : Maps} (h : Layout maps) (e : Σ _ : String, HashMap UserId User) :
    Layout (syncMap maps e).state := by
  cases ht : MapTag.fromString e.1 with
  | none =>
    simp only [syncMap, ht]
    exact h
  | some tag =>
    simp only [syncMap, ht, Outcome.ok_state]
    exact h.adjust tag (fun _ => rfl)

/-- The maps of `World::init`, whatever users they hold. -/
structure World.OnGrid (w : World) : Prop where
  area : w.areaLen = areaLength
  layout : Layout w.maps

namespace World.OnGrid
variable {w : World}

theorem update (h : w.OnGrid) : w.update.state.OnGrid := by
  have hs : Layout w.shiftMaps := h.layout.mapVal (fun _ _ => rfl)
  have hl := Outcome.forEach_state (f := changeMap) (l := w.needChangeMapUser) hs
    (fun maps c _ hm => layout_changeMap hm c)
  unfold World.update
  dsimp only
  split
  · exact ⟨h.area,hl⟩
  · exact ⟨h.area,hl⟩

theorem removeUser (h : w.OnGrid) (userId : UserId) : (w.removeUser userId).state.OnGrid := by
  rcases removeUser_cases w userId with ⟨-,he⟩ | ⟨v,-,-,he⟩ | ⟨v,-,-,he⟩
  · rwa [he]
  · rwa [he]
  · rw [he]
    exact ⟨h.area,h.layout.adjust _ (fun _ => rfl)⟩

theorem run (h : w.OnGrid) (overflow : Overflow) (a : WorldOp) : (a.run overflow w).state.OnGrid := by
  cases a with
  | addUser user => exact ⟨h.area,h.layout.adjust _ (fun _ => rfl)⟩
  | removeUser userId => exact h.removeUser userId
  | login clientId userId => exact ⟨h.area,h.layout⟩
  | logout clientId => exact ⟨h.area,h.layout⟩
  | removeUserByClientId clientId =>
    have hc : { w with clientMap := w.clientMap.erase clientId }.OnGrid := ⟨h.area,h.layout⟩
    simp only [WorldOp.run, World.removeUserByClientId]
    cases w.clientMap.lookup clientId with
    | none => exact hc
    | some userId => exact hc.removeUser userId
  | setVelocity id velocity =>
    simp only [WorldOp.run, World.setVelocity]
    cases w.users.lookup id with
    | none => exact h
    | some v => exact ⟨h.area,h.layout.adjust _ (fun _ => rfl)⟩
  | aoe order id radius money =>
    have hc := credited_aoe overflow order w id radius money
    exact ⟨hc.areaLen_eq.trans h.area,hc.layout h.layout⟩
  | update => exact h.update

theorem syncFromMaster (h : w.OnGrid) (dto : WorldSyncDTO) : (w.syncFromMaster dto).state.OnGrid := by
  have hl := Outcome.forEach_state (f := syncMap) (l := dto.data.entries) h.layout
    (fun maps e _ hm => layout_syncMap hm e)
  unfold World.syncFromMaster
  dsimp only
  split
  · exact ⟨h.area,hl⟩
  · exact ⟨h.area,hl⟩

end World.OnGrid

/-! ## Runs of a slave -/

/-- What a slave does to its world: any operation, and any snapshot. -/
inductive SlaveOp
  | op (a : WorldOp)
  | sync (dto : WorldSyncDTO)

def SlaveOp.run (overflow : Overflow) (w : World) : SlaveOp → Outcome Panic World
  | .op a => a.run overflow w
  | .sync dto => w.syncFromMaster dto

inductive SlaveStep (overflow : Overflow) : World → Option SlaveOp → World → Prop
  | op {w : World} {a : SlaveOp} : SlaveStep overflow w (some a) (a.run overflow w).state
  | reorder {w w' : World} : w.Same w' → SlaveStep overflow w none w'

def slaveLts (overflow : Overflow) (conf : GameServerConf) : Lts World (Option SlaveOp) where
  init w := w = World.init conf
  step := SlaveStep overflow

theorem onGrid_of_reachable {overflow : Overflow} {conf : GameServerConf} {w : World}
    (h : (slaveLts overflow conf).Reachable w) : w.OnGrid := by
  obtain ⟨past,hrun⟩ := h
  apply hrun.invariant
  · rintro s rfl
    exact ⟨rfl,layout_init conf⟩
  · intro s a t hs hst
    cases hst with
    | reorder hsame => exact ⟨hsame.areaLen_eq.trans hs.area,hsame.layout hs.layout⟩
    | @op a =>
      cases a with
      | op a => exact hs.run overflow a
      | sync dto => exact hs.syncFromMaster dto

/-! ## A synchronised slave -/

/-- The same maps exist, and each holds the same users. -/
def SameScenes (maps maps' : Maps) : Prop :=
  ∀ tag, Option.Rel (fun m m' : Map => m.scenes.users.Same m'.scenes.users)
    (maps.lookup tag) (maps'.lookup tag)

theorem SameScenes.userAt_eq {maps maps' : Maps} (h : SameScenes maps maps') (tag : MapTag)
    (id : UserId) : userAt maps' tag id = userAt maps tag id := by
  have hm := h tag
  unfold userAt
  generalize maps.lookup tag = o at hm
  generalize maps'.lookup tag = o' at hm
  cases hm with
  | none => rfl
  | some hs => exact (hs id).symm

/-- Worlds with the same users answer every query with the same users. -/
theorem query_perm {w w' : World} (ha : w'.areaLen = w.areaLen) (h : SameScenes w.maps w'.maps)
    (scope : RectScope) : (w'.query scope).Perm (w.query scope) := by
  have hcover : w'.getCoverMapByScope scope = w.getCoverMapByScope scope := by
    simp only [World.getCoverMapByScope, ha]
  simp only [World.query, hcover]
  apply List.Perm.flatMap_left
  intro tag _
  have hm := h tag
  generalize w.maps.lookup tag = o at hm
  generalize w'.maps.lookup tag = o' at hm
  cases hm with
  | none => exact List.Perm.refl _
  | some hs =>
    apply List.Perm.filter
    exact ((AList.same_iff_perm.mp hs).map Sigma.snd).symm

theorem update_clientMap (w : World) : w.update.state.clientMap = w.clientMap := by
  unfold World.update
  dsimp only
  split <;> rfl

theorem syncFromMaster_clientMap (w : World) (dto : WorldSyncDTO) :
    (w.syncFromMaster dto).state.clientMap = w.clientMap := by
  unfold World.syncFromMaster
  dsimp only
  split <;> rfl

/-- Applying a snapshot of maps laid out like those of `World::init` makes the scenes
those of the snapshot. -/
theorem syncFromMaster_eq {maps : Maps} (hl : Layout maps) {w : World} (hw : w.OnGrid)
    {dto : WorldSyncDTO} (hd : (WorldSyncDTO.fromMaps maps).SameData dto) :
    (w.syncFromMaster dto).panic = none ∧ SameScenes maps (w.syncFromMaster dto).state.maps := by
  have hback : ∀ key users, dto.data.lookup key = some users →
      ∃ tag map, key = tag.toString ∧ maps.lookup tag = some map := by
    intro key users hk
    have hs := hd key
    cases ho : (WorldSyncDTO.fromMaps maps).data.lookup key with
    | none =>
      rw [hk, ho] at hs
      cases hs
    | some users' =>
      obtain ⟨tag,map,hm,rfl,-⟩ := AList.lookup_rekey_some ho
      exact ⟨tag,map,rfl,hm⟩
  have hmem : ∀ {tag map}, maps.lookup tag = some map → tag ∈ initTags := fun hm =>
    (hl.keys _).mp (AList.mem_of_lookup hm)
  have hnamed : KeysNamed dto.data.entries := by
    rintro ⟨key,users⟩ he
    obtain ⟨tag,map,rfl,hm⟩ := hback key users (AList.mem_entries_iff.mp he)
    exact ⟨tag,hmem hm,rfl⟩
  have hsync : w.syncFromMaster dto = Outcome.ok
      { w with maps := dto.data.entries.foldl replaceUsers w.maps }.updateStateInfo := by
    simp only [World.syncFromMaster, forEach_syncMap hnamed, Outcome.ok_panic, Outcome.ok_state]
  rw [hsync]
  refine ⟨rfl,?_⟩
  intro tag
  by_cases ht : tag ∈ initTags
  · obtain ⟨map,hm⟩ := AList.exists_lookup ((hl.keys tag).mpr ht)
    obtain ⟨own,ho⟩ := AList.exists_lookup ((hw.layout.keys tag).mpr ht)
    have hsent : (WorldSyncDTO.fromMaps maps).data.lookup tag.toString = some map.scenes.users := by
      apply AList.lookup_rekey hm
      intro t hin he
      exact toString_injOn ((hl.keys t).mp hin) ht he
    have hs := hd tag.toString
    rw [hsent] at hs
    cases hu : dto.data.lookup tag.toString with
    | none =>
      rw [hu] at hs
      cases hs
    | some users =>
      rw [hu] at hs
      have hnew := lookup_foldl_replaceUsers ht hnamed dto.data.nodupKeys
        (AList.mem_entries_iff.mpr hu) w.maps
      rw [ho] at hnew
      simp only [Outcome.ok_state, World.updateStateInfo, hm, hnew, Option.map_some]
      cases hs with
      | some hsame => exact Option.Rel.some hsame
  · have hnone : maps.lookup tag = none :=
      AList.lookup_eq_none.mpr (fun hin => ht ((hl.keys tag).mp hin))
    have hgrid : (w.syncFromMaster dto).state.OnGrid := hw.syncFromMaster dto
    rw [hsync] at hgrid
    have hnone' := AList.lookup_eq_none.mpr (fun hin => ht ((hgrid.layout.keys tag).mp hin))
    rw [hnone, hnone']
    exact Option.Rel.none

/-- A slave that applies a snapshot of the master, built either way, holds the users
the master held and answers every query as the master did. -/
theorem synced_slave_eq_master {overflow overflow' : Overflow} {conf conf' : GameServerConf}
    {master slave : World} (hm : (worldLts overflow conf).Reachable master)
    (hs : (slaveLts overflow' conf').Reachable slave) {dto : WorldSyncDTO}
    (hd : (WorldSyncDTO.fromMaps master.maps).SameData dto ∨ master.getWorldSyncDto.SameData dto) :
    (slave.syncFromMaster dto).panic = none ∧
    SameScenes master.maps (slave.syncFromMaster dto).state.maps ∧
    (∀ tag id, userAt (slave.syncFromMaster dto).state.maps tag id = userAt master.maps tag id) ∧
    ∀ scope, ((slave.syncFromMaster dto).state.query scope).Perm (master.query scope) := by
  have hv := valid_of_reachable hm
  have hg := onGrid_of_reachable hs
  have hdata : (WorldSyncDTO.fromMaps master.maps).SameData dto := hd.elim id id
  obtain ⟨hp,hscenes⟩ := syncFromMaster_eq hv.layout hg hdata
  refine ⟨hp,hscenes,hscenes.userAt_eq,?_⟩
  apply query_perm _ hscenes
  rw [(hg.syncFromMaster dto).area, hv.area]

theorem synced_slave_eq_master_first_user :
    userAt ((World.init .slave).syncFromMaster (WorldSyncDTO.fromMaps
        ((World.init .master).addUser (User.randomWithoutVelocity 1 (Vector2.new 5 7))).maps)).state.maps
      (pos2mapTag areaLength (Vector2.new 5 7)) 1 =
    some (User.randomWithoutVelocity 1 (Vector2.new 5 7)) := by
  have hm := reachable_addUser_init .panics .master
    (User.randomWithoutVelocity 1 (Vector2.new 5 7)) (by decide)
  have hs : (slaveLts .panics .slave).Reachable (World.init .slave) := ⟨_,Run.start rfl⟩
  have h := synced_slave_eq_master hm hs (Or.inl (WorldSyncDTO.SameData.refl _))
  have hin : InWorld (Vector2.new 5 7) := by decide
  have hn : ¬ Unmapped (Vector2.new 5 7) := by decide
  rw [h.2.2.1, userAt_addUser]
  apply if_pos
  exact ⟨rfl,rfl,((layout_init .master).keys _).mpr ((pos2mapTag_mem_iff hin).mpr hn)⟩

end GameServer.Server
