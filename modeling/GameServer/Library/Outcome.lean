import Mathlib.Data.List.Basic

/-! # Computations that may panic and keep what they have already written

A panic ends one task; the shared state keeps every write made before it. An
outcome is therefore a state together with the panic, if there was one.
-/
namespace GameServer.Library

/-- The state a computation leaves behind, and how it ended. -/
structure Outcome (ε σ : Type) where
  state : σ
  panic : Option ε
deriving DecidableEq

namespace Outcome
variable {ε σ τ α : Type}

def ok (s : σ) : Outcome ε σ := ⟨s, none⟩

/-- A computation that panicked with the given state already written. -/
def fail (s : σ) (e : ε) : Outcome ε σ := ⟨s, some e⟩

@[simp] theorem ok_state (s : σ) : (ok s : Outcome ε σ).state = s := rfl
@[simp] theorem ok_panic (s : σ) : (ok s : Outcome ε σ).panic = none := rfl
@[simp] theorem fail_state (s : σ) (e : ε) : (fail s e).state = s := rfl
@[simp] theorem fail_panic (s : σ) (e : ε) : (fail s e).panic = some e := rfl

def andThen (o : Outcome ε σ) (f : σ → Outcome ε σ) : Outcome ε σ :=
  match o.panic with
  | none => f o.state
  | some _ => o

@[simp] theorem ok_andThen (s : σ) (f : σ → Outcome ε σ) : (ok s).andThen f = f s := rfl
@[simp] theorem fail_andThen (s : σ) (e : ε) (f : σ → Outcome ε σ) :
    (fail s e).andThen f = fail s e := rfl

def map (g : σ → τ) (o : Outcome ε σ) : Outcome ε τ := ⟨g o.state, o.panic⟩

@[simp] theorem map_state (g : σ → τ) (o : Outcome ε σ) : (o.map g).state = g o.state := rfl

/-- Run the body for each element in turn, stopping at the first panic. -/
def forEach (f : σ → α → Outcome ε σ) : σ → List α → Outcome ε σ
  | s, [] => ok s
  | s, a :: l => (f s a).andThen (fun t => forEach f t l)

@[simp] theorem forEach_nil (f : σ → α → Outcome ε σ) (s : σ) : forEach f s [] = ok s := rfl
theorem forEach_cons (f : σ → α → Outcome ε σ) (s : σ) (a : α) (l : List α) :
    forEach f s (a :: l) = (f s a).andThen (fun t => forEach f t l) := rfl

/-- What every iteration preserves, panicking or not, the loop preserves. -/
theorem forEach_state {I : σ → Prop} {f : σ → α → Outcome ε σ} {l : List α} {s : σ}
    (hs : I s) (hf : ∀ s, ∀ a ∈ l, I s → I (f s a).state) : I (forEach f s l).state := by
  induction l generalizing s with
  | nil => exact hs
  | cons a l ih =>
    have ha := hf s a List.mem_cons_self hs
    rw [forEach_cons]
    unfold andThen
    split
    · exact ih ha (fun t b hb => hf t b (List.mem_cons_of_mem _ hb))
    · exact ha

theorem forEach_panic {I : σ → Prop} {P : ε → Prop} {f : σ → α → Outcome ε σ} {l : List α} {s : σ}
    (hs : I s) (hf : ∀ s, ∀ a ∈ l, I s → I (f s a).state)
    (hp : ∀ s, ∀ a ∈ l, I s → ∀ e, (f s a).panic = some e → P e)
    {e : ε} (he : (forEach f s l).panic = some e) : P e := by
  induction l generalizing s with
  | nil => simp at he
  | cons a l ih =>
    have ha := hf s a List.mem_cons_self hs
    rw [forEach_cons] at he
    unfold andThen at he
    split at he
    · exact ih ha (fun t b hb => hf t b (List.mem_cons_of_mem _ hb))
        (fun t b hb => hp t b (List.mem_cons_of_mem _ hb)) he
    · exact hp s a List.mem_cons_self hs e he

/-- A loop whose body never panics is a fold. -/
theorem forEach_ok {f : σ → α → Outcome ε σ} {g : σ → α → σ} {I : σ → Prop} {l : List α} {s : σ}
    (hs : I s) (hf : ∀ s, ∀ a ∈ l, I s → f s a = ok (g s a) ∧ I (g s a)) :
    forEach f s l = ok (l.foldl g s) := by
  induction l generalizing s with
  | nil => rfl
  | cons a l ih =>
    obtain ⟨ha, hi⟩ := hf s a List.mem_cons_self hs
    rw [forEach_cons, ha, ok_andThen, List.foldl_cons]
    exact ih hi (fun t b hb => hf t b (List.mem_cons_of_mem _ hb))

/-- A loop whose body fails at some elements, writing nothing there, gets to the first of them. -/
theorem forEach_takeWhile {f : σ → α → Outcome ε σ} {g : σ → α → σ} {p : α → Bool}
    (hp : ∀ s a, p a = true → f s a = ok (g s a)) (hn : ∀ s a, p a = false → ∃ e, f s a = fail s e)
    (s : σ) (l : List α) : (forEach f s l).state = (l.takeWhile p).foldl g s ∧
      ((forEach f s l).panic = none ↔ ∀ a ∈ l, p a = true) := by
  induction l generalizing s with
  | nil => simp
  | cons a l ih =>
    cases ha : p a with
    | true =>
      rw [forEach_cons, hp s a ha, ok_andThen, List.takeWhile_cons_of_pos ha, List.foldl_cons,
        List.forall_mem_cons]
      obtain ⟨hstate,hpanic⟩ := ih (g s a)
      exact ⟨hstate,hpanic.trans (and_iff_right ha).symm⟩
    | false =>
      obtain ⟨e,he⟩ := hn s a ha
      rw [forEach_cons, he, fail_andThen, List.takeWhile_cons_of_neg (by rw [ha]; decide)]
      refine ⟨rfl,?_⟩
      constructor
      · intro h
        cases h
      · intro h
        rw [h a List.mem_cons_self] at ha
        cases ha

/-- Two loops whose bodies agree through a function agree through it. -/
theorem forEach_map {g : σ → τ} {f : σ → α → Outcome ε σ} {f' : τ → α → Outcome ε τ}
    (h : ∀ s a, f' (g s) a = (f s a).map g) (s : σ) (l : List α) :
    forEach f' (g s) l = (forEach f s l).map g := by
  induction l generalizing s with
  | nil => rfl
  | cons a l ih =>
    rw [forEach_cons, forEach_cons, h]
    cases hp : (f s a).panic with
    | none =>
      have hl : (f s a).map g = ok (g (f s a).state) := by rw [map, hp]; rfl
      rw [hl, ok_andThen, ih]
      simp only [andThen, hp]
    | some e =>
      simp only [andThen, map, hp]

end Outcome
end GameServer.Library
