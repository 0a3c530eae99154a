import Mathlib.Data.List.Nodup

/-! # Values drawn from several streams

Each source yields a stream of values; a schedule says from which source the next value
is taken, and each source yields its values in order. Latest draws come first.
-/
namespace GameServer.Library.Streams
variable {ι α : Type} [DecidableEq ι]

def next (f : ι → ℕ → α) (is : List ι) (i : ι) : α := f i (is.count i)

def drawn (f : ι → ℕ → α) : List ι → List α
  | [] => []
  | i :: is => next f is i :: drawn f is

@[simp] theorem drawn_nil (f : ι → ℕ → α) : drawn f [] = [] := rfl
@[simp] theorem drawn_cons (f : ι → ℕ → α) (i : ι) (is : List ι) :
    drawn f (i :: is) = next f is i :: drawn f is := rfl

theorem mem_drawn {f : ι → ℕ → α} {is : List ι} {a : α} :
    a ∈ drawn f is ↔ ∃ i n, n < is.count i ∧ a = f i n := by
  induction is with
  | nil => simp
  | cons j is ih =>
    rw [drawn_cons, List.mem_cons, ih]
    constructor
    · rintro (rfl | ⟨i,n,hn,rfl⟩)
      · exact ⟨j,is.count j,by simp,rfl⟩
      · refine ⟨i,n,?_,rfl⟩
        rw [List.count_cons]
        omega
    · rintro ⟨i,n,hn,rfl⟩
      rw [List.count_cons] at hn
      by_cases hnew : n < is.count i
      · exact Or.inr ⟨i,n,hnew,rfl⟩
      · by_cases hi : (j == i) = true
        · obtain rfl := beq_iff_eq.mp hi
          rw [if_pos hi] at hn
          obtain rfl : n = is.count j := by omega
          exact Or.inl rfl
        · rw [if_neg hi] at hn
          omega

/-- Streams that never repeat and never meet draw distinct values. -/
theorem nodup_drawn {f : ι → ℕ → α} {is : List ι} (hown : ∀ i, Function.Injective (f i))
    (hothers : ∀ i ∈ is, ∀ j ∈ is, i ≠ j → ∀ m n, f i m ≠ f j n) : (drawn f is).Nodup := by
  induction is with
  | nil => exact List.nodup_nil
  | cons i is ih =>
    have hsub : ∀ j ∈ is, ∀ k ∈ is, j ≠ k → ∀ m n, f j m ≠ f k n := fun j hj k hk =>
      hothers j (List.mem_cons_of_mem i hj) k (List.mem_cons_of_mem i hk)
    refine List.nodup_cons.mpr ⟨?_,ih hsub⟩
    intro hmem
    obtain ⟨j,n,hn,he⟩ := mem_drawn.mp hmem
    have hj : j ∈ is := List.count_pos_iff.mp (by omega)
    by_cases hij : i = j
    · subst hij
      have := hown i he
      omega
    · exact hothers i List.mem_cons_self j (List.mem_cons_of_mem i hj) hij _ _ he

/-- Where all streams are one stream, two sources that draw draw a value twice. -/
theorem not_nodup_drawn (g : ℕ → α) {is : List ι} {i j : ι} (hi : i ∈ is) (hj : j ∈ is) (hij : i ≠ j) :
    ¬ (drawn (fun _ => g) is).Nodup := by
  induction is with
  | nil => cases hi
  | cons k is ih =>
    intro hnodup
    obtain ⟨hnew,hrest⟩ := List.nodup_cons.mp hnodup
    have hfirst : ∀ j ∈ is, k ∉ is → False := by
      intro j hj hk
      apply hnew
      have hcount : is.count k = 0 := List.count_eq_zero.mpr hk
      exact mem_drawn.mpr ⟨j,0,List.count_pos_iff.mpr hj,by rw [next, hcount]⟩
    rcases List.mem_cons.mp hi with rfl | hi'
    · have hj' := (List.mem_cons.mp hj).resolve_left (Ne.symm hij)
      by_cases hk : i ∈ is
      · exact ih hk hj' hrest
      · exact hfirst j hj' hk
    · rcases List.mem_cons.mp hj with rfl | hj'
      · by_cases hk : j ∈ is
        · exact ih hi' hk hrest
        · exact hfirst i hi' hk
      · exact ih hi' hj' hrest

end GameServer.Library.Streams
