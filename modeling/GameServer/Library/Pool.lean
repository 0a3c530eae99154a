import Mathlib.Algebra.Order.Ring.Nat
import Mathlib.Data.List.Basic
import Mathlib.Tactic.Tauto

/-! # Pools of spawned tasks

Spawned tasks wait in a pool in the order in which they were spawned; any of them
may run next and leaves the pool.
-/
namespace GameServer.Library.Pool
variable {α : Type}

theorem split_eraseIdx {pool : List α} {k : ℕ} {a : α} (h : pool[k]? = some a) :
    ∃ before after, pool = before ++ a :: after ∧ pool.eraseIdx k = before ++ after := by
  induction pool generalizing k with
  | nil => simp at h
  | cons b pool ih =>
    cases k with
    | zero =>
      obtain rfl : b = a := by simpa using h
      exact ⟨[],pool,rfl,rfl⟩
    | succ k =>
      obtain ⟨before,after,hp,he⟩ := ih (k := k) (by simpa using h)
      exact ⟨b :: before,after,by rw [hp]; rfl,by rw [List.eraseIdx_cons_succ, he]; rfl⟩

theorem mem_eraseIdx_of_ne {pool : List α} {k : ℕ} {a b : α} (h : pool[k]? = some a) (hb : b ∈ pool)
    (hne : b ≠ a) : b ∈ pool.eraseIdx k := by
  obtain ⟨before,after,hp,he⟩ := split_eraseIdx h
  rw [he]
  rw [hp] at hb
  rcases List.mem_append.mp hb with hb | hb
  · exact List.mem_append_left after hb
  · rcases List.mem_cons.mp hb with rfl | hb
    · exact absurd rfl hne
    · exact List.mem_append_right before hb

/-- If an element moves forward past others, a pair that comes out in an order in which it
did not stand before is the moved element and one it moved past. -/
theorem sublist_pair_of_advance {ahead before after : List α} {x b a : α}
    (h : [b,a].Sublist (ahead ++ x :: (before ++ after))) :
    [b,a].Sublist (ahead ++ (before ++ x :: after)) ∨ (x = b ∧ a ∈ before) := by
  induction ahead with
  | nil =>
    cases h with
    | cons _ h =>
      left
      exact h.trans (List.Sublist.append_left (List.sublist_cons_self x after) before)
    | cons_cons _ h =>
      rcases List.mem_append.mp (List.singleton_sublist.mp h) with hb | ha
      · exact Or.inr ⟨rfl,hb⟩
      · left
        apply List.Sublist.trans _ (List.sublist_append_right before (x :: after))
        exact (List.singleton_sublist.mpr ha).cons_cons x
  | cons y ahead ih =>
    cases h with
    | cons _ h => exact (ih h).imp_left (fun h => h.cons y)
    | cons_cons _ h =>
      left
      apply List.Sublist.cons_cons
      have ha : a ∈ ahead ++ x :: (before ++ after) := List.singleton_sublist.mp h
      apply List.singleton_sublist.mpr
      show a ∈ ahead ++ (before ++ x :: after)
      simp only [List.mem_append, List.mem_cons] at ha ⊢
      tauto

/-- In `line'` the element `x` stands before elements of `pool` it stood behind in `line`. -/
def Advance (pool : List α) (x : α) (line line' : List α) : Prop :=
  ∃ ahead before after, line = ahead ++ (before ++ x :: after) ∧
    line' = ahead ++ x :: (before ++ after) ∧ before ⊆ pool

namespace Advance
variable {pool line line' : List α} {x a b : α}

theorem perm (h : Advance pool x line line') : line'.Perm line := by
  obtain ⟨ahead,before,after,rfl,rfl,-⟩ := h
  exact List.perm_middle.symm.append_left ahead

theorem order (h : Advance pool x line line') (ho : ¬ [b,a].Sublist line) (hn : ¬ (x = b ∧ a ∈ pool)) :
    ¬ [b,a].Sublist line' := by
  obtain ⟨ahead,before,after,rfl,rfl,hsub⟩ := h
  intro hs
  obtain ⟨hx,ha⟩ := (sublist_pair_of_advance hs).resolve_left ho
  exact hn ⟨hx,hsub ha⟩

end Advance

theorem countP_eraseIdx {pool : List α} {k : ℕ} {a : α} (h : pool[k]? = some a) (p : α → Bool) :
    pool.countP p = (pool.eraseIdx k).countP p + if p a then 1 else 0 := by
  obtain ⟨before,after,hp,he⟩ := split_eraseIdx h
  rw [he, hp, List.countP_append, List.countP_append, List.countP_cons]
  omega

theorem countP_set {pool : List α} {k : ℕ} {a b : α} (h : pool[k]? = some a) {p : α → Bool}
    (hp : p b = p a) : (pool.set k b).countP p = pool.countP p := by
  induction pool generalizing k with
  | nil => rfl
  | cons c pool ih =>
    cases k with
    | zero =>
      obtain rfl : c = a := by simpa using h
      rw [List.set_cons_zero, List.countP_cons, List.countP_cons, hp]
    | succ k =>
      rw [List.set_cons_succ, List.countP_cons, List.countP_cons, ih (by simpa using h)]

theorem sum_eraseIdx {pool : List α} {k : ℕ} {a : α} (h : pool[k]? = some a) (f : α → ℕ) :
    (pool.map f).sum = ((pool.eraseIdx k).map f).sum + f a := by
  obtain ⟨before,after,hp,he⟩ := split_eraseIdx h
  rw [he, hp, List.map_append, List.map_append, List.map_cons, List.sum_append, List.sum_append, List.sum_cons]
  omega

theorem sum_set {pool : List α} {k : ℕ} {a : α} (h : pool[k]? = some a) (b : α) (f : α → ℕ) :
    (pool.map f).sum + f b = ((pool.set k b).map f).sum + f a := by
  induction pool generalizing k with
  | nil => simp at h
  | cons c pool ih =>
    cases k with
    | zero =>
      obtain rfl : c = a := by simpa using h
      rw [List.set_cons_zero, List.map_cons, List.map_cons, List.sum_cons, List.sum_cons]
      omega
    | succ k =>
      have hrest := ih (k := k) (by simpa using h)
      rw [List.set_cons_succ, List.map_cons, List.map_cons, List.sum_cons, List.sum_cons]
      omega

/-! ## Pools whose elements carry distinct marks -/

variable {β : Type} {mark : α → β}

/-- An element may be exchanged for at most one with the same mark. -/
theorem nodup_exchange {a : α} {out rest : List α} (hone : out.length ≤ 1)
    (ho : ∀ x ∈ out, mark x = mark a) (h : ((a :: rest).map mark).Nodup) :
    ((out ++ rest).map mark).Nodup := by
  match out, hone with
  | [], _ => exact (List.nodup_cons.mp h).2
  | [x], _ =>
    have hx : mark x = mark a := ho x List.mem_cons_self
    rw [List.singleton_append, List.map_cons, hx]
    exact h

theorem nodup_add {out pool : List α} (hone : out.length ≤ 1)
    (ho : ∀ x ∈ out, ∀ y ∈ pool, mark y ≠ mark x) (h : (pool.map mark).Nodup) :
    ((out ++ pool).map mark).Nodup := by
  match out, hone with
  | [], _ => exact h
  | [x], _ =>
    rw [List.singleton_append, List.map_cons]
    refine List.nodup_cons.mpr ⟨?_,h⟩
    intro hmem
    obtain ⟨y,hy,he⟩ := List.mem_map.mp hmem
    exact ho x List.mem_cons_self y hy he

end GameServer.Library.Pool
