import GameServer.Server.Query

/-! # The grid: which positions have a map

Cell numbers and quadrant letter of a position are computed separately. Inside
the world they name a map `World::init` creates, except on the two half axes
where the letter follows the axis and the rounded numbers leave it.
-/
namespace GameServer.Server
open Common CommonServer Library

/-- The half axes without a map: the upper half of the y axis with the origin,
and the left half of the x axis. -/
def Unmapped (p : Vector2) : Prop := (p.x = 0 ∧ 0 ≤ p.y) ∨ (p.x < 0 ∧ p.y = 0)

instance (p : Vector2) : Decidable (Unmapped p) := by unfold Unmapped; infer_instance

theorem mem_cellLens {n : ℤ} : n ∈ cellLens ↔ n ≠ 0 ∧ -5 ≤ n ∧ n ≤ 5 := by
  simp only [cellLens, List.mem_filter, List.mem_map, List.mem_range, decide_eq_true_eq]
  constructor
  · rintro ⟨⟨i,hi,rfl⟩,hn⟩
    omega
  · rintro ⟨hn,hlo,hhi⟩
    exact ⟨⟨(n + 5).toNat,by omega,by omega⟩,hn⟩

theorem mem_initTags {t : MapTag} : t ∈ initTags ↔
    t.xLen ∈ cellLens ∧ t.yLen ∈ cellLens ∧ t.fieldId = getFieldIdFromLenOrPos t.xLen t.yLen := by
  simp only [initTags, List.mem_flatMap, List.mem_map]
  constructor
  · rintro ⟨x,hx,y,hy,rfl⟩
    exact ⟨hx,hy,rfl⟩
  · rintro ⟨hx,hy,hf⟩
    refine ⟨t.xLen,hx,t.yLen,hy,?_⟩
    rw [← hf]

/-- The letters agree exactly off the half axes, whenever the cell numbers keep
the sign of the coordinates and count zero as positive. -/
theorem fieldId_eq_iff {p : Vector2} {n m : ℤ} (hxn : 0 ≤ p.x → 0 < n) (hxp : p.x < 0 → n < 0)
    (hyn : 0 ≤ p.y → 0 < m) (hyp : p.y < 0 → m < 0) :
    getFieldIdFromLenOrPos p.x p.y = getFieldIdFromLenOrPos n m ↔ ¬ Unmapped p := by
  have cast_pos : ∀ {k : ℤ}, 0 < k → (0 : ℚ) < k := fun h => Int.cast_pos.mpr h
  have cast_neg : ∀ {k : ℤ}, k < 0 → (k : ℚ) < 0 := fun h => Int.cast_lt_zero.mpr h
  rcases lt_trichotomy p.x 0 with hx | hx | hx
  · have hn := cast_neg (hxp hx)
    rcases lt_trichotomy p.y 0 with hy | hy | hy
    · have hm := cast_neg (hyp hy)
      simp [getFieldIdFromLenOrPos, Unmapped, hx, hy, hn, hm, hx.ne, hy.ne, hn.ne, hm.ne, hx.ne',
        hn.ne', hx.not_gt, hy.not_gt, hn.not_gt, hm.not_gt]
    · have hm := cast_pos (hyn hy.ge)
      simp [getFieldIdFromLenOrPos, Unmapped, hx, hy, hn, hm, hx.ne, hn.ne, hx.ne', hn.ne',
        hx.not_gt]
    · have hm := cast_pos (hyn hy.le)
      simp [getFieldIdFromLenOrPos, Unmapped, hx, hy, hn, hm, hx.ne, hy.ne']
  · have hn := cast_pos (hxn hx.ge)
    rcases lt_trichotomy p.y 0 with hy | hy | hy
    · have hm := cast_neg (hyp hy)
      simp [getFieldIdFromLenOrPos, Unmapped, hx, hy, hn, hm, hy.ne, hy.ne', hm.ne, hn.ne, hn.ne',
        hy.not_gt, hm.not_gt, hn.not_gt, hy.not_ge]
    · have hm := cast_pos (hyn hy.ge)
      simp [getFieldIdFromLenOrPos, Unmapped, hx, hy, hn, hm, hn.ne, hm.ne', hn.ne', hn.not_gt]
    · have hm := cast_pos (hyn hy.le)
      simp [getFieldIdFromLenOrPos, Unmapped, hx, hy, hn, hm, hn.ne, hm.ne', hn.ne', hn.not_gt,
        hy.le]
  · have hn := cast_pos (hxn hx.le)
    rcases lt_trichotomy p.y 0 with hy | hy | hy
    · have hm := cast_neg (hyp hy)
      simp [getFieldIdFromLenOrPos, Unmapped, hx, hy, hn, hm, hx.ne, hy.ne, hn.ne, hm.ne, hx.ne',
        hn.ne', hx.not_gt, hy.not_gt, hn.not_gt, hm.not_gt]
    · have hm := cast_pos (hyn hy.ge)
      simp [getFieldIdFromLenOrPos, Unmapped, hx, hy, hn, hm, hx.ne, hn.ne, hx.ne', hn.ne',
        hx.not_gt, hn.not_gt]
    · have hm := cast_pos (hyn hy.le)
      simp [getFieldIdFromLenOrPos, Unmapped, hx, hy, hn, hm, hx.ne, hn.ne, hx.ne', hn.ne',
        hx.not_gt, hn.not_gt]

theorem neg_five_le_lenOf {c : ℚ} (hlo : -worldBound ≤ c) (hhi : c ≤ worldBound) :
    -5 ≤ lenOf areaLength c := by
  have habs : |c / (areaLength : ℚ)| ≤ (5 : ℤ) := by
    unfold worldBound at hlo hhi
    unfold areaLength
    push_cast
    rw [abs_le]
    constructor <;> linarith
  have hceil : ⌈|c / (areaLength : ℚ)|⌉ ≤ 5 := Int.ceil_le.mpr habs
  have hnn : 0 ≤ ⌈|c / (areaLength : ℚ)|⌉ := Int.ceil_nonneg (abs_nonneg _)
  unfold lenOf asI32
  dsimp only
  split <;> split <;> split <;> omega

theorem areaLength_pos : 0 < areaLength := by decide

theorem lenOf_mem_cellLens {c : ℚ} (hlo : -worldBound ≤ c) (hhi : c ≤ worldBound) :
    lenOf areaLength c ∈ cellLens := by
  have h5 := neg_five_le_lenOf hlo hhi
  have h5' := lenOf_le_five areaLength c
  refine mem_cellLens.mpr ⟨?_,h5,h5'⟩
  rcases lt_or_ge c 0 with hc | hc
  · have h := lenOf_neg_of_neg areaLength_pos hc
    omega
  · have h : 0 < lenOf areaLength c := lenOf_pos_of_nonneg hc
    omega

/-- A position inside the world has a map exactly off the two half axes. -/
theorem pos2mapTag_mem_iff {p : Vector2} (h : InWorld p) :
    pos2mapTag areaLength p ∈ initTags ↔ ¬ Unmapped p := by
  obtain ⟨hxlo,hxhi,hylo,hyhi⟩ := h
  have hx := lenOf_mem_cellLens hxlo hxhi
  have hy := lenOf_mem_cellLens hylo hyhi
  have hf : getFieldIdFromLenOrPos p.x p.y =
      getFieldIdFromLenOrPos (lenOf areaLength p.x) (lenOf areaLength p.y) ↔ ¬ Unmapped p :=
    fieldId_eq_iff lenOf_pos_of_nonneg (lenOf_neg_of_neg areaLength_pos) lenOf_pos_of_nonneg
      (lenOf_neg_of_neg areaLength_pos)
  rw [mem_initTags]
  exact ⟨fun h => hf.mp h.2.2,fun h => ⟨hx,hy,hf.mpr h⟩⟩

/-! ## Looking up a user in the grid -/

theorem userAt_adjust (maps : Maps) (t tag : MapTag) (f : Map → Map) (id : UserId) :
    userAt (maps.adjust t f) tag id =
      if tag = t then (maps.lookup tag).bind (fun map => (f map).scenes.users.lookup id)
      else userAt maps tag id := by
  unfold userAt
  rw [AList.lookup_adjust]
  split
  · rw [Option.bind_map]
    rfl
  · rfl

theorem userAt_eq_none_of_notMem {maps : Maps} {tag : MapTag} (h : tag ∉ maps) (id : UserId) :
    userAt maps tag id = none := by
  unfold userAt
  rw [AList.lookup_eq_none.mpr h]
  rfl

theorem mem_of_userAt {maps : Maps} {tag : MapTag} {id : UserId} {u : User}
    (h : userAt maps tag id = some u) : tag ∈ maps := by
  by_contra hn
  rw [userAt_eq_none_of_notMem hn] at h
  cases h

theorem userAt_insertUser (maps : Maps) (t tag : MapTag) (u : User) (id : UserId) :
    userAt (maps.adjust t (Map.insertUser u)) tag id =
      if tag = t ∧ id = u.id ∧ tag ∈ maps then some u else userAt maps tag id := by
  rw [userAt_adjust]
  by_cases ht : tag = t
  · rw [if_pos ht]
    unfold userAt
    cases hm : maps.lookup tag with
    | none =>
      have hn := AList.lookup_eq_none.mp hm
      simp [hn]
    | some map =>
      have hin : tag ∈ maps := AList.mem_of_lookup hm
      simp [Map.insertUser, AList.lookup_insert_eq, ht ▸ hin, ht]
  · simp [ht]

theorem userAt_removeUser (maps : Maps) (t tag : MapTag) (i id : UserId) :
    userAt (maps.adjust t (Map.removeUser i)) tag id =
      if tag = t ∧ id = i then none else userAt maps tag id := by
  rw [userAt_adjust]
  by_cases ht : tag = t
  · rw [if_pos ht]
    unfold userAt
    cases hm : maps.lookup tag with
    | none => simp
    | some map => simp [Map.removeUser, AList.lookup_erase_eq, ht]
  · simp [ht]

theorem userAt_adjustUser (maps : Maps) (t tag : MapTag) (i id : UserId) (f : User → User) :
    userAt (maps.adjust t (Map.adjustUser i f)) tag id =
      if tag = t ∧ id = i then (userAt maps tag id).map f else userAt maps tag id := by
  rw [userAt_adjust]
  by_cases ht : tag = t
  · rw [if_pos ht]
    unfold userAt
    cases hm : maps.lookup tag with
    | none => simp
    | some map =>
      simp only [Map.adjustUser, AList.lookup_adjust, ht, true_and, Option.bind_some]
  · simp [ht]

theorem userAt_shiftMaps (w : World) (tag : MapTag) (id : UserId) :
    userAt w.shiftMaps tag id = (userAt w.maps tag id).map (fun u => u.shift w.tickTime) := by
  unfold userAt World.shiftMaps
  rw [AList.lookup_mapVal]
  cases w.maps.lookup tag with
  | none => rfl
  | some map => simp

/-- The index `update` rebuilds holds a user exactly if some scene does. -/
theorem lookup_collectUsers_some {maps : Maps} {id : UserId} {u : User}
    (h : (collectUsers maps).lookup id = some u) : ∃ tag, userAt maps tag id = some u := by
  unfold collectUsers at h
  rcases AList.lookup_foldl_extend_some h with ⟨m,hm,hu⟩ | hu
  · obtain ⟨map,hmap,rfl⟩ := List.mem_map.mp hm
    obtain ⟨tag,ht⟩ := AList.mem_values_iff.mp hmap
    refine ⟨tag,?_⟩
    unfold userAt
    rw [ht]
    exact hu
  · simp at hu

theorem lookup_collectUsers_none {maps : Maps} {id : UserId} :
    (collectUsers maps).lookup id = none ↔ ∀ tag, userAt maps tag id = none := by
  unfold collectUsers
  rw [AList.lookup_foldl_extend_none]
  constructor
  · rintro ⟨-,h⟩ tag
    unfold userAt
    cases ht : maps.lookup tag with
    | none => rfl
    | some map =>
      exact h _ (List.mem_map.mpr ⟨map,AList.mem_values_iff.mpr ⟨tag,ht⟩,rfl⟩)
  · intro h
    refine ⟨rfl,fun m hm => ?_⟩
    obtain ⟨map,hmap,rfl⟩ := List.mem_map.mp hm
    obtain ⟨tag,ht⟩ := AList.mem_values_iff.mp hmap
    have hu := h tag
    unfold userAt at hu
    rwa [ht] at hu

end GameServer.Server
