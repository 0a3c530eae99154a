import Mathlib.Data.Int.Notation
import GameServer.Library.Run

/-! # Tables of the last sign of life

A table keeps the last entry of every key it watches. An entry is made when its key is
enrolled and replaced when the key is heard again; a pass reads the clock once for each key
and drops the entries that are too old. What such a table holds is told by the signs alone:
the last entry of a key stands as long as no pass has found one of its entries too late.
-/
namespace GameServer.Library

/-- What a table hears: `renew` is for keys that are watched already. -/
inductive Sign (K E : Type)
  | enrol (k : K) (entry : E)
  | renew (k : K) (entry : E)
  | pass (clock : K → ℤ)

namespace Sign
variable {K E : Type}

def Enrols (k : K) : Sign K E → Prop
  | enrol k' _ => k' = k
  | _ => False

end Sign

namespace Detector
variable {K E : Type} [DecidableEq K] {time : E → ℤ} {limit : ℤ} {k : K} {entry : E}

def hear (time : E → ℤ) (limit : ℤ) (table : K → Option E) : Sign K E → K → Option E
  | .enrol k entry, k' => if k' = k then some entry else table k'
  | .renew k entry, k' => if k' = k then (table k').map (fun _ => entry) else table k'
  | .pass clock, k' => (table k').filter (fun entry => decide (clock k' - time entry ≤ limit))

def watched (time : E → ℤ) (limit : ℤ) : List (Sign K E) → K → Option E
  | [] => fun _ => none
  | s :: past => hear time limit (watched time limit past) s

def lastSign (k : K) : List (Sign K E) → Option E
  | [] => none
  | .enrol k' entry :: past => if k' = k then some entry else lastSign k past
  | .renew k' entry :: past => if k' = k then (lastSign k past).map (fun _ => entry) else lastSign k past
  | .pass _ :: past => lastSign k past

/-- Every pass since the key was enrolled found an entry that was recent enough. -/
def InTime (time : E → ℤ) (limit : ℤ) (k : K) (past : List (Sign K E)) : Prop :=
  ∀ later clock earlier, past = later ++ .pass clock :: earlier → (∀ s ∈ later, ¬ s.Enrols k) →
    ∀ entry, lastSign k earlier = some entry → clock k - time entry ≤ limit

theorem inTime_cons {s : Sign K E} {past : List (Sign K E)} : InTime time limit k (s :: past) ↔
    (∀ clock, s = .pass clock → ∀ entry, lastSign k past = some entry → clock k - time entry ≤ limit) ∧
      (¬ s.Enrols k → InTime time limit k past) := by
  constructor
  · intro h
    refine ⟨?_,?_⟩
    · rintro clock rfl
      exact h [] clock past rfl (fun s hs => by cases hs)
    · intro hs later clock earlier he hl
      exact h (s :: later) clock earlier (by rw [he, List.cons_append])
        (List.forall_mem_cons.mpr ⟨hs,hl⟩)
  · rintro ⟨hpass,hrest⟩ later clock earlier he hl
    cases later with
    | nil =>
      obtain ⟨rfl,rfl⟩ := List.cons_eq_cons.mp he
      exact hpass clock rfl
    | cons s' later =>
      obtain ⟨rfl,rfl⟩ := List.cons_eq_cons.mp he
      obtain ⟨hs,hl⟩ := List.forall_mem_cons.mp hl
      exact hrest hs later clock earlier rfl hl

/-- The table holds the last entry of exactly those keys that no pass has found too late. -/
theorem watched_iff {past : List (Sign K E)} : watched time limit past k = some entry ↔
    lastSign k past = some entry ∧ InTime time limit k past := by
  induction past generalizing entry with
  | nil => simp [watched, lastSign]
  | cons s past ih =>
    rw [inTime_cons]
    cases s with
    | enrol k' entry' =>
      by_cases hk : k' = k
      · simp [watched, hear, lastSign, Sign.Enrols, hk]
      · simp [watched, hear, lastSign, Sign.Enrols, hk, Ne.symm hk, ih]
    | renew k' entry' =>
      by_cases hk : k' = k
      · simp only [watched, hear, lastSign, Sign.Enrols, hk, if_true, Option.map_eq_some_iff, ih, reduceCtorEq,
          not_false_eq_true, forall_const, false_implies, true_and]
        exact ⟨fun ⟨e,⟨he,hin⟩,h⟩ => ⟨⟨e,he,h⟩,hin⟩,fun ⟨⟨e,he,h⟩,hin⟩ => ⟨e,⟨he,hin⟩,h⟩⟩
      · simp [watched, hear, lastSign, Sign.Enrols, hk, Ne.symm hk, ih]
    | pass clock =>
      simp only [watched, hear, lastSign, Sign.Enrols, Option.filter_eq_some_iff, ih, decide_eq_true_eq,
        Sign.pass.injEq, not_false_eq_true, forall_const, forall_eq']
      constructor
      · rintro ⟨⟨hlast,hin⟩,hlate⟩
        refine ⟨hlast,?_,hin⟩
        intro e he
        rw [hlast] at he
        obtain rfl := Option.some.inj he
        exact hlate
      · rintro ⟨hlast,hlate,hin⟩
        exact ⟨⟨hlast,hin⟩,hlate _ hlast⟩

/-! ### Systems that keep such a table -/

section
variable {σ α : Type} {M : Lts σ α} {past : List (σ × α)} {s : σ}

def signs (sign : σ → α → Option (Sign K E)) (past : List (σ × α)) : List (Sign K E) :=
  past.filterMap (fun p => sign p.1 p.2)

def hearStep (time : E → ℤ) (limit : ℤ) (table : K → Option E) : Option (Sign K E) → K → Option E
  | none => table
  | some sign => hear time limit table sign

/-- A table that every step changes as its sign does is told by the signs of the run. -/
theorem table_eq_watched {I : σ → Prop} {table : σ → K → Option E} {sign : σ → α → Option (Sign K E)}
    (h0 : ∀ s, M.init s → I s ∧ table s = fun _ => none)
    (hstep : ∀ s a t, I s → M.step s a t →
      I t ∧ table t = hearStep time limit (table s) (sign s a)) (h : Run M past s) :
    table s = watched time limit (signs sign past) := by
  have hsteps : ∀ s a t, I s → True → M.step s a t →
      I t ∧ table t = hearStep time limit (table s) (sign s a) := fun s a t hi _ => hstep s a t hi
  have hview := (h.view_eq (fun table s a => hearStep time limit table (sign s a)) h0 hsteps
    (fun _ _ => trivial)).2
  rw [hview]
  clear hview h
  induction past with
  | nil => rfl
  | cons p past ih =>
    simp only [Run.seen, ih, signs, List.filterMap_cons]
    cases hs : sign p.1 p.2 <;> rfl

end

end Detector
end GameServer.Library
