import Mathlib.Data.Nat.Digits.Defs
import Mathlib.Data.List.Basic
import Mathlib.Data.List.Induction

/-! # Positional numerals

A place system writes numbers over the first symbols of an alphabet, the most significant
symbol first. A text without a leading zero is determined by the number it stands for.
-/
namespace GameServer.Library

/-- An alphabet in the order of its values, and how many of its symbols are in use. -/
structure PlaceSystem (α : Type) where
  symbols : List α
  radix : ℕ
  nodup : symbols.Nodup
  two_le : 2 ≤ radix
  enough : radix ≤ symbols.length

namespace PlaceSystem
variable {α : Type} [DecidableEq α] (p : PlaceSystem α)

def inUse : List α := p.symbols.take p.radix

def digit (c : α) : ℕ := p.symbols.idxOf c

/-- The number a text stands for; `Nat.ofDigits` reads from the least significant end. -/
def value (s : List α) : ℕ := Nat.ofDigits p.radix (s.map p.digit).reverse

/-- A text over the symbols in use that starts with zero only where it is zero. -/
structure Canonical (s : List α) : Prop where
  ne_nil : s ≠ []
  mem : ∀ c ∈ s, c ∈ p.inUse
  lead : ∀ c rest, s = c :: rest → p.digit c = 0 → rest = []

omit [DecidableEq α] in
theorem one_lt : 1 < p.radix := p.two_le

omit [DecidableEq α] in
theorem radix_pos : 0 < p.radix := zero_lt_one.trans p.one_lt

variable {p}

omit [DecidableEq α] in
theorem mem_symbols {c : α} (hc : c ∈ p.inUse) : c ∈ p.symbols := List.mem_of_mem_take hc

theorem digit_lt {c : α} (hc : c ∈ p.inUse) : p.digit c < p.radix := by
  have happ : p.inUse ++ p.symbols.drop p.radix = p.symbols := List.take_append_drop _ _
  have hidx : p.digit c = p.inUse.idxOf c := by
    rw [digit, ← happ, List.idxOf_append_of_mem hc]
  rw [hidx]
  exact (List.idxOf_lt_length_of_mem hc).trans_le (List.length_take_le _ _)

theorem exists_symbol {k : ℕ} (hk : k < p.radix) :
    ∃ c ∈ p.inUse, p.symbols[k]? = some c ∧ p.digit c = k := by
  have hlen : k < p.symbols.length := hk.trans_le p.enough
  refine ⟨p.symbols[k],?_,List.getElem?_eq_getElem hlen,p.nodup.idxOf_getElem k hlen⟩
  exact List.mem_take_iff_getElem.mpr ⟨k,by omega,rfl⟩

@[simp] theorem value_nil : p.value [] = 0 := rfl

/-- One more symbol on the right: the number before it moves up by one place. -/
theorem value_concat (s : List α) (c : α) : p.value (s ++ [c]) = p.value s * p.radix + p.digit c := by
  have hrev : ((s ++ [c]).map p.digit).reverse = p.digit c :: (s.map p.digit).reverse := by simp
  rw [value, hrev, Nat.ofDigits_cons, value]
  ring

theorem value_singleton (c : α) : p.value [c] = p.digit c := by
  have h := value_concat (p := p) [] c
  rwa [value_nil, Nat.zero_mul, Nat.zero_add] at h

theorem value_le_append (s t : List α) : p.value s ≤ p.value (s ++ t) := by
  induction t using List.reverseRecOn with
  | nil => rw [List.append_nil]
  | append_singleton t c ih =>
    calc p.value s ≤ p.value (s ++ t) := ih
      _ ≤ p.value (s ++ t) * p.radix := Nat.le_mul_of_pos_right _ p.radix_pos
      _ ≤ p.value (s ++ t) * p.radix + p.digit c := Nat.le_add_right _ _
      _ = p.value (s ++ (t ++ [c])) := by rw [← List.append_assoc, value_concat]

namespace Canonical

theorem singleton {c : α} (hc : c ∈ p.inUse) : p.Canonical [c] where
  ne_nil := List.cons_ne_nil _ _
  mem := fun _ hc' => (List.mem_singleton.mp hc') ▸ hc
  lead := fun _ _ h _ => (List.cons.inj h).2.symm

theorem digit_head_eq_zero_iff {c : α} {rest : List α} (h : p.Canonical (c :: rest)) :
    p.digit c = 0 ↔ p.value (c :: rest) = 0 := by
  constructor
  · intro hc
    rw [h.lead c rest rfl hc, value_singleton, hc]
  · intro hv
    have hle := value_le_append (p := p) [c] rest
    rw [value_singleton, List.singleton_append, hv] at hle
    exact Nat.le_zero.mp hle

theorem concat {s : List α} (h : p.Canonical s) (hs : p.value s ≠ 0) {c : α} (hc : c ∈ p.inUse) :
    p.Canonical (s ++ [c]) where
  ne_nil := List.append_ne_nil_of_left_ne_nil h.ne_nil _
  mem := by
    intro c' hc'
    rcases List.mem_append.mp hc' with hc' | hc'
    · exact h.mem c' hc'
    · exact (List.mem_singleton.mp hc') ▸ hc
  lead := by
    intro c' rest heq hc'
    cases s with
    | nil => exact absurd rfl h.ne_nil
    | cons d s =>
      obtain ⟨rfl,-⟩ := List.cons.inj heq
      exact absurd (h.digit_head_eq_zero_iff.mp hc') hs

theorem eq_singleton {s : List α} (h : p.Canonical s) (hs : p.value s = 0) :
    ∃ c ∈ p.symbols, s = [c] ∧ p.digit c = 0 := by
  cases s with
  | nil => exact absurd rfl h.ne_nil
  | cons c rest =>
    have hc : p.digit c = 0 := h.digit_head_eq_zero_iff.mpr hs
    exact ⟨c,mem_symbols (h.mem c List.mem_cons_self),by rw [h.lead c rest rfl hc],hc⟩

theorem digits_value {s : List α} (h : p.Canonical s) (hs : p.value s ≠ 0) :
    Nat.digits p.radix (p.value s) = (s.map p.digit).reverse := by
  cases s with
  | nil => exact absurd rfl h.ne_nil
  | cons c rest =>
    refine Nat.digits_ofDigits p.radix p.one_lt _ ?_ ?_
    · intro k hk
      obtain ⟨d,hd,rfl⟩ := List.mem_map.mp (List.mem_reverse.mp hk)
      exact digit_lt (h.mem d hd)
    · intro hne
      have hlast : ((c :: rest).map p.digit).reverse.getLast hne = p.digit c := by
        simp
      rw [hlast]
      exact fun hc => hs (h.digit_head_eq_zero_iff.mp hc)

/-- A number has one canonical text. -/
theorem eq_of_value_eq {s t : List α} (hs : p.Canonical s) (ht : p.Canonical t)
    (h : p.value s = p.value t) : s = t := by
  by_cases hz : p.value s = 0
  · obtain ⟨c,hc,rfl,hc0⟩ := hs.eq_singleton hz
    obtain ⟨d,hd,rfl,hd0⟩ := ht.eq_singleton (h ▸ hz)
    rw [(List.idxOf_inj hc).mp (hc0.trans hd0.symm)]
  · have hmap : s.map p.digit = t.map p.digit := by
      rw [← List.reverse_inj, ← hs.digits_value hz, h, ht.digits_value (h ▸ hz)]
    have hread : ∀ u : List α, p.Canonical u →
        (u.map p.digit).map (fun k => p.symbols[k]?) = u.map some := by
      intro u hu
      rw [List.map_map]
      exact List.map_congr_left (fun c hc => List.getElem?_idxOf (mem_symbols (hu.mem c hc)))
    have hsome : s.map some = t.map some := by rw [← hread s hs, hmap, hread t ht]
    exact List.map_injective_iff.mpr (Option.some_injective α) hsome

end Canonical
end PlaceSystem
end GameServer.Library
