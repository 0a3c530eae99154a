import Mathlib.Data.List.Induction

/-! # The last entries of a growing record

A window of size `n` takes in one entry after the other and drops its oldest one when it
has become too long. It always holds the last `n` entries that were ever taken in.
-/
namespace GameServer.Library.Window
variable {α : Type}

def last (n : ℕ) (l : List α) : List α := l.drop (l.length - n)

def push (n : ℕ) (l : List α) (x : α) : List α :=
  let l := l ++ [x]
  if l.length > n then l.tail else l

theorem length_last (n : ℕ) (l : List α) : (last n l).length = min n l.length := by
  rw [last, List.length_drop]
  omega

theorem push_last (n : ℕ) (l : List α) (x : α) : push n (last n l) x = last n (l ++ [x]) := by
  have hlen := length_last n l
  unfold push
  dsimp only
  rcases Nat.lt_or_ge l.length n with hshort | hlong
  · have hall : last n l = l := by
      rw [last, Nat.sub_eq_zero_of_le (Nat.le_of_lt hshort), List.drop_zero]
    rw [hall, if_neg (by simp; omega), last, List.length_append, List.length_singleton,
      Nat.sub_eq_zero_of_le hshort, List.drop_zero]
  · have hfull : (last n l ++ [x]).length > n := by
      rw [List.length_append, hlen, List.length_singleton]
      omega
    rw [if_pos hfull, ← List.drop_one, last, last, List.length_append, List.length_singleton]
    have hcut : l.length - n ≤ l.length := Nat.sub_le _ _
    rw [← List.drop_append_of_le_length hcut, List.drop_drop]
    congr 1
    omega

/-- Whatever was taken in, the window holds the last entries of it. -/
theorem foldl_push (n : ℕ) (l : List α) : l.foldl (push n) [] = last n l := by
  induction l using List.reverseRecOn with
  | nil => rw [last, List.drop_nil, List.foldl_nil]
  | append_singleton l x ih => rw [List.foldl_append, ih, List.foldl_cons, List.foldl_nil, push_last]

end GameServer.Library.Window
