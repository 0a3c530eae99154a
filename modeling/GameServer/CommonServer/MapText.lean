import GameServer.CommonServer.MapTool

/-! # The texts of a map tag

A snapshot names each map by text, and the decoder takes more texts than the encoder writes:
of the first part it reads one character, the numbers may have a plus and leading zeros, and
whatever follows the third part is not looked at.
-/
namespace GameServer.CommonServer
open Library

/-- A first field ends the text, or at the first separator. -/
theorem splitOn_eq_cons_iff {α : Type} [BEq α] [LawfulBEq α] {sep : α} {xs v : List α} {vs : List (List α)} :
    xs.splitOn sep = v :: vs ↔
      sep ∉ v ∧ (xs = v ∧ vs = [] ∨ ∃ ys, xs = v ++ sep :: ys ∧ ys.splitOn sep = vs) := by
  constructor
  · intro h
    by_cases hin : sep ∈ xs
    · obtain ⟨u,ys,rfl,hu⟩ := List.eq_append_cons_of_mem hin
      rw [List.splitOn_append_cons_self_of_not_mem hu] at h
      obtain ⟨rfl,hvs⟩ := List.cons.inj h
      exact ⟨hu,Or.inr ⟨ys,rfl,hvs⟩⟩
    · rw [List.splitOn_eq_singleton hin] at h
      obtain ⟨rfl,rfl⟩ := List.cons.inj h
      exact ⟨hin,Or.inl ⟨rfl,rfl⟩⟩
  · rintro ⟨hv,⟨rfl,rfl⟩ | ⟨ys,rfl,rfl⟩⟩
    · exact List.splitOn_eq_singleton hv
    · exact List.splitOn_append_cons_self_of_not_mem hv ys

namespace MapTag

def InI32 (t : MapTag) : Prop :=
  (-2147483648 ≤ t.xLen ∧ t.xLen ≤ 2147483647) ∧ -2147483648 ≤ t.yLen ∧ t.yLen ≤ 2147483647

/-- A first part that begins with the letter, two numbers, and nothing more or another colon. -/
def Spells (s : String) (t : MapTag) : Prop :=
  ∃ name xs ys more, s.toList = (t.fieldId :: name) ++ ':' :: (xs ++ ':' :: (ys ++ more)) ∧
    ':' ∉ t.fieldId :: name ∧ Decimal.Denotes xs t.xLen ∧ Decimal.Denotes ys t.yLen ∧ t.InI32 ∧
    (more = [] ∨ ∃ rest, more = ':' :: rest)

theorem colon_not_mem_of_denotes {cs : List Char} {n : ℤ} (h : Decimal.Denotes cs n) : ':' ∉ cs := by
  obtain ⟨sign,k,rfl,hsign⟩ := h
  intro hin
  rcases List.mem_append.mp hin with hin | hin
  · rcases hsign with ⟨rfl,-⟩ | ⟨rfl | rfl,-⟩
    · exact absurd (List.mem_singleton.mp hin) (by decide)
    · exact absurd (List.mem_singleton.mp hin) (by decide)
    · cases hin
  · exact absurd (Decimal.isDigit_of_zeros hin) (by decide)

theorem fromString_eq_some_of_parts {s : String} {t : MapTag} : fromString s = some t ↔
    ∃ v0 v1 v2 vs, s.toList.splitOn ':' = v0 :: v1 :: v2 :: vs ∧ v0.head? = some t.fieldId ∧
      parseI32 v1 = some t.xLen ∧ parseI32 v2 = some t.yLen := by
  simp only [fromString, Option.bind_eq_some_iff]
  constructor
  · rintro ⟨v0,h0,fieldId,hf,v1,h1,xLen,hx,v2,h2,yLen,hy,he⟩
    obtain rfl := Option.some.inj he
    match hv : s.toList.splitOn ':' with
    | [] => simp [hv] at h0
    | [_] => simp [hv] at h1
    | [_,_] => simp [hv] at h2
    | u0 :: u1 :: u2 :: vs =>
      simp only [hv, List.getElem?_cons_zero, List.getElem?_cons_succ, Option.some.injEq] at h0 h1 h2
      obtain rfl := h0
      obtain rfl := h1
      obtain rfl := h2
      exact ⟨u0,u1,u2,vs,rfl,hf,hx,hy⟩
  · rintro ⟨v0,v1,v2,vs,hv,hf,hx,hy⟩
    simp only [hv, List.getElem?_cons_zero, List.getElem?_cons_succ]
    exact ⟨v0,rfl,_,hf,v1,rfl,_,hx,v2,rfl,_,hy,rfl⟩

theorem fromString_iff_spells {s : String} {t : MapTag} : fromString s = some t ↔ Spells s t := by
  rw [fromString_eq_some_of_parts]
  constructor
  · rintro ⟨v0,v1,v2,vs,hv,hf,hx,hy⟩
    obtain ⟨hx,hxlo,hxhi⟩ := Decimal.parseInt_eq_some_iff.mp hx
    obtain ⟨hy,hylo,hyhi⟩ := Decimal.parseInt_eq_some_iff.mp hy
    obtain ⟨name,rfl⟩ : ∃ name, v0 = t.fieldId :: name := List.head?_eq_some_iff.mp hf
    obtain ⟨h0,⟨-,hvs⟩ | ⟨ys,he,hv1⟩⟩ := splitOn_eq_cons_iff.mp hv
    · cases hvs
    obtain ⟨-,⟨-,hvs⟩ | ⟨zs,rfl,hv2⟩⟩ := splitOn_eq_cons_iff.mp hv1
    · cases hvs
    obtain ⟨-,⟨rfl,-⟩ | ⟨rest,rfl,-⟩⟩ := splitOn_eq_cons_iff.mp hv2
    · refine ⟨name,v1,zs,[],?_,h0,hx,hy,⟨⟨hxlo,hxhi⟩,hylo,hyhi⟩,Or.inl rfl⟩
      rw [he, List.append_nil]
    · exact ⟨name,v1,v2,':' :: rest,he,h0,hx,hy,⟨⟨hxlo,hxhi⟩,hylo,hyhi⟩,Or.inr ⟨rest,rfl⟩⟩
  · rintro ⟨name,xs,ys,more,he,h0,hx,hy,⟨hxin,hyin⟩,hmore⟩
    have hlast : ∃ vs, (ys ++ more).splitOn ':' = ys :: vs := by
      rcases hmore with rfl | ⟨rest,rfl⟩
      · exact ⟨[],by rw [List.append_nil, List.splitOn_eq_singleton (colon_not_mem_of_denotes hy)]⟩
      · exact ⟨_,List.splitOn_append_cons_self_of_not_mem (colon_not_mem_of_denotes hy) rest⟩
    obtain ⟨vs,hvs⟩ := hlast
    refine ⟨t.fieldId :: name,xs,ys,vs,?_,rfl,?_,?_⟩
    · rw [he, List.splitOn_append_cons_self_of_not_mem h0,
        List.splitOn_append_cons_self_of_not_mem (colon_not_mem_of_denotes hx), hvs]
    · exact Decimal.parseInt_eq_some_iff.mpr ⟨hx,hxin⟩
    · exact Decimal.parseInt_eq_some_iff.mpr ⟨hy,hyin⟩

/-- The decoder takes exactly the texts that spell a tag. A tag that was decoded is encoded as a
text that decodes to it again, and every other text that does so is longer. -/
theorem texts_of_tag (s : String) (t : MapTag) : (fromString s = some t ↔ Spells s t) ∧
    (Spells s t → fromString t.toString = some t ∧ (s = t.toString ∨ t.toString.length < s.length)) := by
  refine ⟨fromString_iff_spells,?_⟩
  rintro ⟨name,xs,ys,more,he,h0,hx,hy,⟨hxin,hyin⟩,hmore⟩
  have hcolon : t.fieldId ≠ ':' := fun hc => h0 (by rw [hc]; exact List.mem_cons_self)
  refine ⟨fromString_toString hcolon hxin hyin,?_⟩
  have hown : t.toString.toList = t.fieldId :: ':' :: (Decimal.printInt t.xLen ++
      ':' :: Decimal.printInt t.yLen) := by
    simp [MapTag.toString]
  have hlength : s.length = name.length + xs.length + ys.length + more.length + 3 := by
    rw [← String.length_toList, he]
    simp only [List.length_append, List.length_cons]
    omega
  have hownLength : t.toString.length =
      (Decimal.printInt t.xLen).length + (Decimal.printInt t.yLen).length + 3 := by
    rw [← String.length_toList, hown]
    simp only [List.length_append, List.length_cons]
    omega
  rcases hx.shortest with rfl | hxs
  · rcases hy.shortest with rfl | hys
    · by_cases hnone : name = [] ∧ more = []
      · obtain ⟨rfl,rfl⟩ := hnone
        left
        apply String.toList_injective
        rw [he, hown, List.append_nil]
        rfl
      · right
        have hmany : 0 < name.length + more.length := by
          rw [← List.length_append]
          exact List.length_pos_of_ne_nil (fun h => hnone (List.append_eq_nil_iff.mp h))
        omega
    · right
      omega
  · right
    have hyle : (Decimal.printInt t.yLen).length ≤ ys.length := by
      rcases hy.shortest with rfl | hys
      · exact le_rfl
      · exact hys.le
    omega

end MapTag
end GameServer.CommonServer
