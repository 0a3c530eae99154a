import GameServer.Common.Basic
import GameServer.Library.Decimal
import Mathlib.Data.Rat.Floor
import Mathlib.Tactic.Push
import Mathlib.Tactic.SplitIfs

/-! # Cells of the world and the tags that name them

A position is assigned to a cell by a quadrant letter and two cell numbers. The
letter comes from the signs of the coordinates, the numbers from rounding away
from zero, and the two rules disagree on some half axes.
-/
namespace GameServer.CommonServer
open Common Library

structure MapTag where
  fieldId : Char
  xLen : ℤ
  yLen : ℤ
deriving DecidableEq

namespace MapTag

def toString (t : MapTag) : String :=
  String.ofList ([t.fieldId] ++ ':' :: Decimal.printInt t.xLen ++ ':' :: Decimal.printInt t.yLen)

/-- `parse::<i32>()` -/
def parseI32 (cs : List Char) : Option ℤ := Decimal.parseInt (-2147483648) 2147483647 cs

/-- Split at the colons; `none` where one of the source's `unwrap`s fails. -/
def fromString (s : String) : Option MapTag :=
  let v := s.toList.splitOn ':'
  v[0]?.bind fun v0 => v0.head?.bind fun fieldId =>
  v[1]?.bind fun v1 => (parseI32 v1).bind fun xLen =>
  v[2]?.bind fun v2 => (parseI32 v2).bind fun yLen =>
  some { fieldId := fieldId, xLen := xLen, yLen := yLen }

theorem colon_not_mem_printInt (n : ℤ) : ':' ∉ Decimal.printInt n := by
  intro h
  rcases Decimal.mem_printInt h with h | h
  · simp at h
  · simp at h

theorem splitOn_toString {t : MapTag} (hf : t.fieldId ≠ ':') :
    t.toString.toList.splitOn ':' =
      [[t.fieldId], Decimal.printInt t.xLen, Decimal.printInt t.yLen] := by
  have hsep : ∀ l ∈ [[t.fieldId], Decimal.printInt t.xLen, Decimal.printInt t.yLen], ':' ∉ l := by
    intro l hl
    simp only [List.mem_cons, List.not_mem_nil, or_false] at hl
    rcases hl with rfl | rfl | rfl
    · simpa using hf.symm
    · exact colon_not_mem_printInt _
    · exact colon_not_mem_printInt _
  have h := List.splitOn_intercalate _ hsep (by simp)
  simpa [List.intercalate, toString] using h

/-- Decoding inverts encoding for every tag of 32-bit cell numbers. -/
theorem fromString_toString {t : MapTag} (hf : t.fieldId ≠ ':')
    (hx : -2147483648 ≤ t.xLen ∧ t.xLen ≤ 2147483647)
    (hy : -2147483648 ≤ t.yLen ∧ t.yLen ≤ 2147483647) :
    fromString t.toString = some t := by
  have hpx : parseI32 (Decimal.printInt t.xLen) = some t.xLen :=
    Decimal.parseInt_printInt hx.1 hx.2
  have hpy : parseI32 (Decimal.printInt t.yLen) = some t.yLen :=
    Decimal.parseInt_printInt hy.1 hy.2
  unfold fromString
  rw [splitOn_toString hf]
  simp [hpx, hpy]

end MapTag

def getFieldIdFromLenOrPos (x y : ℚ) : Char :=
  if (0 = x ∧ 0 = y) ∨ (x = 0 ∧ y > 0) ∨ (x < 0 ∧ y > 0) then 'A'
  else if (x > 0 ∧ y > 0) ∨ (x > 0 ∧ y = 0) then 'B'
  else if (x < 0 ∧ y < 0) ∨ (x < 0 ∧ y = 0) then 'C'
  else if (x > 0 ∧ y < 0) ∨ (x = 0 ∧ y < 0) then 'D'
  else 'E'

theorem getFieldIdFromLenOrPos_ne_colon (x y : ℚ) : getFieldIdFromLenOrPos x y ≠ ':' := by
  unfold getFieldIdFromLenOrPos
  split_ifs <;> decide

/-- A cast to `i32` saturates. -/
def asI32 (n : ℤ) : ℤ := max (-2147483648) (min n 2147483647)

/-- The cell number of one coordinate: rounded away from zero, never zero, at most 5. -/
def lenOf (areaLen : ℕ) (c : ℚ) : ℤ :=
  let point := c / areaLen
  let len := if point ≥ 0 then asI32 ⌈|point|⌉ else -asI32 ⌈|point|⌉
  let len := if len = 0 then 1 else len
  if len > 5 then 5 else len

def pos2mapTag (areaLen : ℕ) (pos : Vector2) : MapTag where
  fieldId := getFieldIdFromLenOrPos pos.x pos.y
  xLen := lenOf areaLen pos.x
  yLen := lenOf areaLen pos.y

theorem lenOf_pos_of_nonneg {areaLen : ℕ} {c : ℚ} (hc : 0 ≤ c) : 0 < lenOf areaLen c := by
  have hp : c / areaLen ≥ 0 := div_nonneg hc (Nat.cast_nonneg areaLen)
  have hn : 0 ≤ ⌈|c / (areaLen : ℚ)|⌉ := Int.ceil_nonneg (abs_nonneg _)
  unfold lenOf asI32
  simp only [hp, if_true]
  split <;> split <;> omega

theorem lenOf_neg_of_neg {areaLen : ℕ} (ha : 0 < areaLen) {c : ℚ} (hc : c < 0) :
    lenOf areaLen c < 0 := by
  have hq : (0 : ℚ) < areaLen := by exact_mod_cast ha
  have hneg : c / areaLen < 0 := div_neg_of_neg_of_pos hc hq
  have hpos : 0 < ⌈|c / (areaLen : ℚ)|⌉ := Int.ceil_pos.mpr (abs_pos.mpr hneg.ne)
  unfold lenOf asI32
  simp only [ge_iff_le, not_le.mpr hneg, if_false]
  split <;> split <;> omega

theorem lenOf_le_five (areaLen : ℕ) (c : ℚ) : lenOf areaLen c ≤ 5 := by
  unfold lenOf
  dsimp only
  split <;> omega

theorem lenOf_ne_zero {areaLen : ℕ} (ha : 0 < areaLen) (c : ℚ) : lenOf areaLen c ≠ 0 := by
  rcases lt_or_ge c 0 with hc | hc
  · have h := lenOf_neg_of_neg ha hc
    omega
  · have h : 0 < lenOf areaLen c := lenOf_pos_of_nonneg hc
    omega

/-- A larger coordinate never has a smaller cell number, clamp and saturation included. -/
theorem lenOf_mono {areaLen : ℕ} (ha : 0 < areaLen) {c c' : ℚ} (h : c ≤ c') :
    lenOf areaLen c ≤ lenOf areaLen c' := by
  have hq : (0 : ℚ) < areaLen := by exact_mod_cast ha
  have hdiv : c / areaLen ≤ c' / areaLen := (div_le_div_iff_of_pos_right hq).mpr h
  rcases lt_or_ge c' 0 with hc' | hc'
  · have hneg' : c' / areaLen < 0 := div_neg_of_neg_of_pos hc' hq
    have hneg : c / areaLen < 0 := lt_of_le_of_lt hdiv hneg'
    have habs : |c' / (areaLen : ℚ)| ≤ |c / (areaLen : ℚ)| := by
      rw [abs_of_neg hneg, abs_of_neg hneg']
      exact neg_le_neg hdiv
    have hceil : ⌈|c' / (areaLen : ℚ)|⌉ ≤ ⌈|c / (areaLen : ℚ)|⌉ := Int.ceil_mono habs
    have hpos : 0 < ⌈|c' / (areaLen : ℚ)|⌉ := Int.ceil_pos.mpr (abs_pos.mpr hneg'.ne)
    unfold lenOf asI32
    simp only [ge_iff_le, not_le.mpr hneg, not_le.mpr hneg', if_false]
    omega
  · rcases lt_or_ge c 0 with hc | hc
    · have hlo := lenOf_neg_of_neg ha hc
      have hhi : 0 < lenOf areaLen c' := lenOf_pos_of_nonneg hc'
      omega
    · have hnn : 0 ≤ c / areaLen := div_nonneg hc hq.le
      have hnn' : 0 ≤ c' / areaLen := div_nonneg hc' hq.le
      have hceil : ⌈|c / (areaLen : ℚ)|⌉ ≤ ⌈|c' / (areaLen : ℚ)|⌉ := by
        rw [abs_of_nonneg hnn, abs_of_nonneg hnn']
        exact Int.ceil_mono hdiv
      have hpos : 0 ≤ ⌈|c / (areaLen : ℚ)|⌉ := Int.ceil_nonneg (abs_nonneg _)
      unfold lenOf asI32
      simp only [ge_iff_le, hnn, hnn', if_true]
      omega

end GameServer.CommonServer
