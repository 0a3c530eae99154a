import GameServer.Server.Cover

/-! # What the maps declare and what a cover names

The index rounds a coordinate away from zero, and `World::init` gives all quadrants the
corners of the upper left one. So a map holds the positions of its key where the first is
negative and the second is not, and elsewhere on the lines of the grid only. The cover of
a query is cut off at the right and at the top, but not at the left and at the bottom.
-/
namespace GameServer.Server
open Common CommonServer Library

/-- The rectangle between the upper left and the lower right corner. -/
def Map.Contains (map : Map) (p : Vector2) : Prop :=
  map.startPosition.x ≤ p.x ∧ p.x ≤ map.endPosition.x ∧
    map.endPosition.y ≤ p.y ∧ p.y ≤ map.startPosition.y

def OnLine (c : ℚ) : Prop := ∃ n : ℤ, c = n * areaLength

/-- The positions that have a map which declares them. -/
def Tiled (p : Vector2) : Prop :=
  (p.x < 0 ∨ p.x ≠ 0 ∧ OnLine p.x) ∧ (0 ≤ p.y ∨ OnLine p.y) ∧ ¬ (p.x < 0 ∧ p.y = 0)

/-! ## Cell numbers inside the world -/

theorem areaLength_rat_pos : (0 : ℚ) < areaLength := by exact_mod_cast areaLength_pos

section
variable {c : ℚ}

theorem lenOf_of_neg (hlo : -worldBound ≤ c) (hc : c < 0) : lenOf areaLength c = ⌊c / (areaLength : ℚ)⌋ := by
  have hneg : c / (areaLength : ℚ) < 0 := div_neg_of_neg_of_pos hc areaLength_rat_pos
  have hceil : ⌈|c / (areaLength : ℚ)|⌉ = -⌊c / (areaLength : ℚ)⌋ := by
    rw [abs_of_neg hneg, Int.ceil_neg]
  have hfive : -5 ≤ ⌊c / (areaLength : ℚ)⌋ := by
    rw [Int.le_floor, le_div_iff₀ areaLength_rat_pos]
    unfold worldBound at hlo
    unfold areaLength
    push_cast
    linarith
  have hlt : ⌊c / (areaLength : ℚ)⌋ < 0 := Int.floor_lt.mpr (by exact_mod_cast hneg)
  unfold lenOf asI32
  simp only [ge_iff_le, not_le.mpr hneg, if_false, hceil]
  split <;> split <;> omega

theorem lenOf_of_pos (hhi : c ≤ worldBound) (hc : 0 < c) : lenOf areaLength c = ⌈c / (areaLength : ℚ)⌉ := by
  have hpos : 0 < c / (areaLength : ℚ) := div_pos hc areaLength_rat_pos
  have hfive : ⌈c / (areaLength : ℚ)⌉ ≤ 5 := by
    rw [Int.ceil_le, div_le_iff₀ areaLength_rat_pos]
    unfold worldBound at hhi
    unfold areaLength
    push_cast
    linarith
  have hlt : 0 < ⌈c / (areaLength : ℚ)⌉ := Int.ceil_pos.mpr hpos
  unfold lenOf asI32
  simp only [ge_iff_le, hpos.le, if_true, abs_of_pos hpos]
  split <;> split <;> omega

theorem lenOf_zero : lenOf areaLength 0 = 1 := by
  unfold lenOf asI32
  simp

theorem onLine_iff_ceil : OnLine c ↔ ⌈c / (areaLength : ℚ)⌉ * (areaLength : ℚ) ≤ c := by
  constructor
  · rintro ⟨n,rfl⟩
    rw [mul_div_cancel_right₀ _ areaLength_rat_pos.ne', Int.ceil_intCast]
  · intro h
    refine ⟨⌈c / (areaLength : ℚ)⌉,le_antisymm ?_ h⟩
    rw [← div_le_iff₀ areaLength_rat_pos]
    exact Int.le_ceil _

theorem onLine_iff_floor : OnLine c ↔ c ≤ ⌊c / (areaLength : ℚ)⌋ * (areaLength : ℚ) := by
  constructor
  · rintro ⟨n,rfl⟩
    rw [mul_div_cancel_right₀ _ areaLength_rat_pos.ne', Int.floor_intCast]
  · intro h
    refine ⟨⌊c / (areaLength : ℚ)⌋,le_antisymm h ?_⟩
    rw [← le_div_iff₀ areaLength_rat_pos]
    exact Int.floor_le _

/-- From its cell number to the next one: right of the axis only on the borders. -/
theorem between_lens_iff (hlo : -worldBound ≤ c) (hhi : c ≤ worldBound) :
    (lenOf areaLength c * areaLength : ℚ) ≤ c ∧ c ≤ ((lenOf areaLength c + 1) * areaLength : ℚ) ↔
      c < 0 ∨ c ≠ 0 ∧ OnLine c := by
  rcases lt_trichotomy c 0 with hc | rfl | hc
  · rw [lenOf_of_neg hlo hc]
    refine iff_of_true ⟨?_,?_⟩ (Or.inl hc)
    · rw [← le_div_iff₀ areaLength_rat_pos]
      exact Int.floor_le _
    · rw [← div_le_iff₀ areaLength_rat_pos]
      exact (Int.lt_floor_add_one _).le
  · rw [lenOf_zero]
    refine iff_of_false (fun h => ?_) (by simp)
    have ha := areaLength_rat_pos
    push_cast at h
    linarith [h.1]
  · rw [lenOf_of_pos hhi hc]
    have hup : c ≤ (⌈c / (areaLength : ℚ)⌉ + 1) * (areaLength : ℚ) := by
      rw [← div_le_iff₀ areaLength_rat_pos]
      exact (Int.le_ceil _).trans (le_add_of_nonneg_right zero_le_one)
    constructor
    · exact fun h => Or.inr ⟨hc.ne',onLine_iff_ceil.mpr h.1⟩
    · rintro (hneg | ⟨-,hline⟩)
      · exact absurd hneg hc.not_gt
      · exact ⟨onLine_iff_ceil.mp hline,hup⟩

/-- From the previous cell number to its own: below the axis only on the borders. -/
theorem between_lens_iff' (hlo : -worldBound ≤ c) (hhi : c ≤ worldBound) :
    ((lenOf areaLength c - 1) * areaLength : ℚ) ≤ c ∧ c ≤ (lenOf areaLength c * areaLength : ℚ) ↔
      0 ≤ c ∨ OnLine c := by
  rcases lt_trichotomy c 0 with hc | rfl | hc
  · rw [lenOf_of_neg hlo hc]
    have hlow : (⌊c / (areaLength : ℚ)⌋ - 1) * (areaLength : ℚ) ≤ c := by
      rw [← le_div_iff₀ areaLength_rat_pos]
      exact (sub_le_self _ zero_le_one).trans (Int.floor_le _)
    constructor
    · exact fun h => Or.inr (onLine_iff_floor.mpr h.2)
    · rintro (hpos | hline)
      · exact absurd hpos hc.not_ge
      · exact ⟨hlow,onLine_iff_floor.mp hline⟩
  · rw [lenOf_zero]
    refine iff_of_true ⟨?_,?_⟩ (Or.inl le_rfl)
    · simp
    · simp
  · rw [lenOf_of_pos hhi hc]
    refine iff_of_true ⟨?_,?_⟩ (Or.inl hc.le)
    · rw [← le_div_iff₀ areaLength_rat_pos]
      have hlt := Int.ceil_lt_add_one (c / (areaLength : ℚ))
      linarith
    · rw [← div_le_iff₀ areaLength_rat_pos]
      exact Int.le_ceil _

end

/-- The map of a position declares it exactly where both numbers lie on its side of the cell. -/
theorem contains_initMap_iff {p : Vector2} (h : InWorld p) :
    (initMap (pos2mapTag areaLength p)).Contains p ↔
      (p.x < 0 ∨ p.x ≠ 0 ∧ OnLine p.x) ∧ (0 ≤ p.y ∨ OnLine p.y) := by
  obtain ⟨hxlo,hxhi,hylo,hyhi⟩ := h
  rw [← between_lens_iff hxlo hxhi, ← between_lens_iff' hylo hyhi]
  unfold Map.Contains initMap pos2mapTag
  push_cast
  rw [and_assoc]

/-- `World::init` creates a map for the key of a position, and that map declares the position,
exactly left of the y axis and above the x axis or on the borders of the cells; the half
axes without a map do not count. -/
theorem tiled_iff (conf : GameServerConf) {p : Vector2} (h : InWorld p) :
    (∃ map, (World.init conf).maps.lookup (pos2mapTag (World.init conf).areaLen p) = some map ∧
      map.Contains p) ↔ Tiled p := by
  have harea : (World.init conf).areaLen = areaLength := rfl
  have hmem := pos2mapTag_mem_iff h
  have hin := contains_initMap_iff h
  simp only [harea, lookup_init_maps]
  constructor
  · rintro ⟨map,hmap,hc⟩
    split at hmap
    · rename_i htag
      obtain rfl := Option.some.inj hmap
      obtain ⟨hx,hy⟩ := hin.mp hc
      exact ⟨hx,hy,fun haxis => hmem.mp htag (Or.inr haxis)⟩
    · cases hmap
  · rintro ⟨hx,hy,haxis⟩
    refine ⟨initMap (pos2mapTag areaLength p),if_pos (hmem.mpr ?_),hin.mpr ⟨hx,hy⟩⟩
    rintro (⟨hzero,-⟩ | hleft)
    · rcases hx with hneg | ⟨hne,-⟩
      · exact absurd hzero hneg.ne
      · exact hne hzero
    · exact haxis hleft

theorem tiled_upper_left : ∃ map, (World.init .master).maps.lookup
    (pos2mapTag (World.init .master).areaLen (Vector2.new (-100) 100)) = some map ∧
      map.Contains (Vector2.new (-100) 100) :=
  (tiled_iff .master (by decide)).mpr ⟨Or.inl (by decide),Or.inl (by decide),by decide⟩

theorem not_tiled_upper_right : InWorld (Vector2.new 100 100) ∧ ¬ ∃ map, (World.init .master).maps.lookup
    (pos2mapTag (World.init .master).areaLen (Vector2.new 100 100)) = some map ∧
      map.Contains (Vector2.new 100 100) := by
  refine ⟨by decide,?_⟩
  rintro ⟨map,hmap,hc⟩
  rw [lookup_init_maps] at hmap
  split at hmap
  · obtain rfl := Option.some.inj hmap
    have hstart : ¬ (initMap (pos2mapTag areaLength (Vector2.new 100 100))).startPosition.x ≤ 100 := by
      decide +kernel
    exact hstart hc.1
  · cases hmap

/-! ## The cover of a query -/

/-- No corner of the rectangle is left of the world or below it, or the rectangle names no cell. -/
def CoverInside (scope : RectScope) : Prop :=
  (-worldBound ≤ scope.leftUp.x ∧ -worldBound ≤ scope.rightDown.y) ∨
    lenOf areaLength scope.rightDown.x < lenOf areaLength scope.leftUp.x ∨
    lenOf areaLength scope.leftUp.y < lenOf areaLength scope.rightDown.y

/-- Cell numbers are not cut off below: what lies left of the world is numbered on. -/
theorem neg_five_le_lenOf_iff {c : ℚ} : -5 ≤ lenOf areaLength c ↔ -worldBound ≤ c := by
  constructor
  · intro h
    by_contra hlo
    have hdiv : c / (areaLength : ℚ) < (-5 : ℤ) := by
      rw [div_lt_iff₀ areaLength_rat_pos]
      unfold worldBound at hlo
      unfold areaLength
      push_cast
      linarith
    have hneg : c / (areaLength : ℚ) < 0 := hdiv.trans (by norm_num)
    have hceil : 5 < ⌈|c / (areaLength : ℚ)|⌉ := by
      rw [Int.lt_ceil, abs_of_neg hneg]
      push_cast at hdiv ⊢
      linarith
    unfold lenOf asI32 at h
    simp only [ge_iff_le, not_le.mpr hneg, if_false] at h
    split at h <;> split at h <;> omega
  · intro h
    rcases lt_or_ge c 0 with hc | hc
    · exact neg_five_le_lenOf h (hc.le.trans (by unfold worldBound; norm_num))
    · have hpos : 0 < lenOf areaLength c := lenOf_pos_of_nonneg hc
      omega

theorem mapTagOf_of_mem_coverColumn {xLen insideEnd : ℤ} {fuel : ℕ} {yLen : ℤ} {tag : MapTag}
    (h : tag ∈ coverColumn xLen insideEnd fuel yLen) : MapTagOf tag := by
  induction fuel generalizing yLen with
  | zero => cases h
  | succ fuel ih =>
    simp only [coverColumn] at h
    split at h
    · rcases List.mem_cons.mp h with rfl | hrest
      · rfl
      · exact ih hrest
    · cases h

theorem mapTagOf_of_mem_coverColumns {outEnd insideStart insideEnd : ℤ} {fuel : ℕ} {xLen : ℤ}
    {tag : MapTag} (h : tag ∈ coverColumns outEnd insideStart insideEnd fuel xLen) : MapTagOf tag := by
  induction fuel generalizing xLen with
  | zero => cases h
  | succ fuel ih =>
    simp only [coverColumns] at h
    split at h
    · rcases List.mem_append.mp h with hcol | hrest
      · exact mapTagOf_of_mem_coverColumn hcol
      · exact ih hrest
    · cases h

/-- The cells a cover names, in terms of the corners. -/
theorem mem_getCoverMapByScope {w : World} (ha : w.areaLen = areaLength) {scope : RectScope}
    {tag : MapTag} : tag ∈ w.getCoverMapByScope scope ↔ MapTagOf tag ∧ tag.xLen ≠ 0 ∧ tag.yLen ≠ 0 ∧
      lenOf areaLength scope.leftUp.x ≤ tag.xLen ∧ tag.xLen ≤ lenOf areaLength scope.rightDown.x ∧
      lenOf areaLength scope.rightDown.y ≤ tag.yLen ∧ tag.yLen ≤ lenOf areaLength scope.leftUp.y := by
  have hx := lenOf_ne_zero areaLength_pos scope.rightDown.x
  have hy := lenOf_ne_zero areaLength_pos scope.rightDown.y
  unfold World.getCoverMapByScope
  rw [ha]
  constructor
  · intro h
    obtain ⟨hxlo,hxhi,hxne,hylo,hyhi,hyne⟩ := mem_coverColumns hx hy h
    exact ⟨mapTagOf_of_mem_coverColumns h,hxne,hyne,hxlo,hxhi,hylo,hyhi⟩
  · rintro ⟨htag,hxne,hyne,hxlo,hxhi,hylo,hyhi⟩
    exact mem_coverColumns_of_between htag hxlo hxhi hxne hylo hyhi hyne le_rfl

/-- A cover stays inside the grid exactly if its first and its lowest cell do. -/
theorem cover_subset_iff (conf : GameServerConf) (scope : RectScope) :
    (∀ tag ∈ (World.init conf).getCoverMapByScope scope, tag ∈ (World.init conf).maps) ↔
      CoverInside scope := by
  have hx := lenOf_ne_zero areaLength_pos scope.leftUp.x
  have hy := lenOf_ne_zero areaLength_pos scope.rightDown.y
  simp only [mem_getCoverMapByScope (rfl : (World.init conf).areaLen = areaLength),
    (layout_init conf).keys, mem_initTags, mem_cellLens]
  constructor
  · intro h
    by_contra hn
    obtain ⟨hout,hxs,hys⟩ : ¬ (-worldBound ≤ scope.leftUp.x ∧ -worldBound ≤ scope.rightDown.y) ∧
        ¬ lenOf areaLength scope.rightDown.x < lenOf areaLength scope.leftUp.x ∧
        ¬ lenOf areaLength scope.leftUp.y < lenOf areaLength scope.rightDown.y := by
      unfold CoverInside at hn
      tauto
    -- the lower left cell of the cover
    obtain ⟨⟨-,hxlo,-⟩,⟨-,hylo,-⟩,-⟩ := h
      { fieldId := getFieldIdFromLenOrPos (lenOf areaLength scope.leftUp.x) (lenOf areaLength scope.rightDown.y)
        xLen := lenOf areaLength scope.leftUp.x
        yLen := lenOf areaLength scope.rightDown.y }
      ⟨rfl,hx,hy,le_rfl,not_lt.mp hxs,le_rfl,not_lt.mp hys⟩
    exact hout ⟨neg_five_le_lenOf_iff.mp hxlo,neg_five_le_lenOf_iff.mp hylo⟩
  · rintro hin tag ⟨htag,hxne,hyne,hxlo,hxhi,hylo,hyhi⟩
    have hx5 := lenOf_le_five areaLength scope.rightDown.x
    have hy5 := lenOf_le_five areaLength scope.leftUp.y
    rcases hin with ⟨hleft,hdown⟩ | hempty | hempty
    · have hl := neg_five_le_lenOf_iff.mpr hleft
      have hd := neg_five_le_lenOf_iff.mpr hdown
      exact ⟨⟨hxne,by omega,by omega⟩,⟨hyne,by omega,by omega⟩,htag⟩
    · omega
    · omega

/-- The cover of a rectangle names maps of the world only, each once and never more than there
are, exactly if the rectangle reaches beyond the world neither to the left nor to the bottom
or names no cell at all. -/
theorem cover_inside_iff (conf : GameServerConf) (scope : RectScope) :
    ((∀ tag ∈ (World.init conf).getCoverMapByScope scope, tag ∈ (World.init conf).maps) ∧
      ((World.init conf).getCoverMapByScope scope).Nodup ∧
      ((World.init conf).getCoverMapByScope scope).length ≤ (World.init conf).maps.entries.length) ↔
    CoverInside scope := by
  rw [← cover_subset_iff conf scope]
  refine and_iff_left_of_imp ?_
  intro hsub
  have hnodup : ((World.init conf).getCoverMapByScope scope).Nodup := nodup_getCoverMapByScope rfl scope
  refine ⟨hnodup,?_⟩
  have hperm : ((World.init conf).getCoverMapByScope scope).Subperm (World.init conf).maps.keys :=
    List.subperm_of_subset hnodup (fun tag htag => AList.mem_keys.mp (hsub tag htag))
  have hle := hperm.length_le
  rwa [AList.keys, List.keys, List.length_map] at hle

theorem cover_leaves_grid : ∃ tag ∈ (World.init .master).getCoverMapByScope
    { leftUp := Vector2.new (-1000001) 100, rightDown := Vector2.new (-999999) 50 },
      tag ∉ (World.init .master).maps := by
  refine ⟨{ fieldId := 'A', xLen := -6, yLen := 1 },?_,?_⟩
  · decide +kernel
  · rw [(layout_init .master).keys]
    decide

end GameServer.Server
